import Funra.Lib.Except
import Funra.Lib.Linked
import Funra.Rlist.Basic

/-!
# What a list represents

`RlistRep self l`: the links run along the nodes `l`, which are listed with their values. Each of the six
operations that change the list is one on `l`. Those on the front are those on the back of the mirrored
list, which has `head` and `tail`, `prev` and `next` exchanged.
-/

namespace Funra

open Mem Linked Except

variable {α : Type} {F : RlistFuncs α} {self s : Rlist α} {l : List (Nat × Option α)} {a : Nat}
  {node : RlistNode α}

/-- The nodes of a list with their values, from `head` to `tail`. -/
structure RlistRep (s : Rlist α) (l : List (Nat × Option α)) : Prop where
  next : Path s.nextOf s.head (l.map Prod.fst) none
  prev : Path s.prevOf s.tail (l.map Prod.fst).reverse none
  val : ∀ p ∈ l, s.valOf p.1 = some p.2
  len : s.len = UInt32.ofNat l.length

/-! ### Accesses -/

theorem Rlist.modifyNode_ok {f : RlistNode α → RlistNode α} (h : s.nodes a = some node) :
    s.modifyNode f (some a) = .ok (s.setNode a (f node)) := by
  simp only [Rlist.modifyNode, h]

theorem Rlist.node_ok (h : s.nodes a = some node) : s.node (some a) = .ok node := by
  simp only [Rlist.node, h]

theorem rlistFreeNode_ok (h : s.nodes a = some node) :
    rlistFreeNode F s (some a) = .ok { s with
      nodes := Function.update s.nodes a none
      freed := if F.freeNodeVal then s.freed ++ [node.val] else s.freed } := by
  simp only [rlistFreeNode, h]

@[simp] theorem Rlist.setNode_head : (s.setNode a node).head = s.head := rfl

@[simp] theorem Rlist.setNode_tail : (s.setNode a node).tail = s.tail := rfl

theorem Rlist.nextOf_setNode :
    (s.setNode a node).nextOf = Function.update s.nextOf a (some node.next) := by
  funext b
  by_cases hb : b = a
  · subst hb
    simp [Rlist.nextOf, Rlist.setNode]
  · simp [Rlist.nextOf, Rlist.setNode, hb]

theorem Rlist.prevOf_setNode :
    (s.setNode a node).prevOf = Function.update s.prevOf a (some node.prev) := by
  funext b
  by_cases hb : b = a
  · subst hb
    simp [Rlist.prevOf, Rlist.setNode]
  · simp [Rlist.prevOf, Rlist.setNode, hb]

theorem Rlist.valOf_setNode :
    (s.setNode a node).valOf = Function.update s.valOf a (some node.val) := by
  funext b
  by_cases hb : b = a
  · subst hb
    simp [Rlist.valOf, Rlist.setNode]
  · simp [Rlist.valOf, Rlist.setNode, hb]

/-- An assignment that keeps the back link. -/
theorem Rlist.prevOf_setNode_keep {old : RlistNode α} (h : s.nodes a = some old)
    (heq : node.prev = old.prev) : (s.setNode a node).prevOf = s.prevOf := by
  rw [Rlist.prevOf_setNode, heq]
  exact Function.update_eq_self_iff.mpr (by simp [Rlist.prevOf, h])

theorem Rlist.valOf_setNode_keep {old : RlistNode α} (h : s.nodes a = some old)
    (heq : node.val = old.val) : (s.setNode a node).valOf = s.valOf := by
  rw [Rlist.valOf_setNode, heq]
  exact Function.update_eq_self_iff.mpr (by simp [Rlist.valOf, h])

/-! ### The mirrored list -/

def RlistNode.mirror (node : RlistNode α) : RlistNode α := ⟨node.next, node.prev, node.val⟩

def Rlist.mirror (self : Rlist α) : Rlist α :=
  { self with
    head := self.tail
    tail := self.head
    nodes := fun a => (self.nodes a).map RlistNode.mirror }

theorem RlistNode.mirror_mirror (node : RlistNode α) : node.mirror.mirror = node := rfl

theorem Rlist.mirror_mirror (self : Rlist α) : self.mirror.mirror = self := by
  have hnodes : (fun a => ((self.nodes a).map RlistNode.mirror).map RlistNode.mirror) = self.nodes := by
    funext a
    cases self.nodes a <;> rfl
  simp only [Rlist.mirror, hnodes]

theorem Rlist.nextOf_mirror (self : Rlist α) : self.mirror.nextOf = self.prevOf := by
  funext a
  simp only [Rlist.nextOf, Rlist.prevOf, Rlist.mirror, Option.map_map]
  rfl

theorem Rlist.prevOf_mirror (self : Rlist α) : self.mirror.prevOf = self.nextOf := by
  funext a
  simp only [Rlist.nextOf, Rlist.prevOf, Rlist.mirror, Option.map_map]
  rfl

theorem Rlist.valOf_mirror (self : Rlist α) : self.mirror.valOf = self.valOf := by
  funext a
  simp only [Rlist.valOf, Rlist.mirror, Option.map_map]
  rfl

theorem RlistRep.mirror (h : RlistRep self l) : RlistRep self.mirror l.reverse := by
  refine ⟨?_, ?_, ?_, ?_⟩
  · rw [Rlist.nextOf_mirror, List.map_reverse]
    exact h.prev
  · rw [Rlist.prevOf_mirror, List.map_reverse, List.reverse_reverse]
    exact h.next
  · intro p hp
    rw [Rlist.valOf_mirror]
    exact h.val p (List.mem_reverse.mp hp)
  · rw [List.length_reverse]
    exact h.len

theorem Rlist.setNode_mirror (self : Rlist α) (a : Nat) (node : RlistNode α) :
    self.mirror.setNode a node.mirror = (self.setNode a node).mirror := by
  have hnodes : Function.update (fun b => (self.nodes b).map RlistNode.mirror) a (some node.mirror) =
      fun b => (Function.update self.nodes a (some node) b).map RlistNode.mirror := by
    funext b
    by_cases hb : b = a
    · subst hb
      simp
    · simp [hb]
  simp only [Rlist.setNode, Rlist.mirror, hnodes]

theorem Rlist.node_mirror (self : Rlist α) (p : Option Nat) :
    self.mirror.node p = (self.node p).map RlistNode.mirror := by
  cases p with
  | none => rfl
  | some a =>
    simp only [Rlist.node, Rlist.mirror]
    cases self.nodes a <;> rfl

theorem Rlist.modifyNode_mirror (self : Rlist α) {f g : RlistNode α → RlistNode α}
    (hfg : ∀ node, g node.mirror = (f node).mirror) (p : Option Nat) :
    self.mirror.modifyNode g p = (self.modifyNode f p).map Rlist.mirror := by
  cases p with
  | none => rfl
  | some a =>
    cases hnode : self.nodes a with
    | none =>
      have hmirror : self.mirror.nodes a = none := by simp [Rlist.mirror, hnode]
      simp only [Rlist.modifyNode, hnode, hmirror]
      rfl
    | some node =>
      have hmirror : self.mirror.nodes a = some node.mirror := by simp [Rlist.mirror, hnode]
      rw [Rlist.modifyNode_ok hnode, Rlist.modifyNode_ok hmirror, hfg, Rlist.setNode_mirror]
      rfl

theorem rlistLpush_mirror (self : Rlist α) (m : Option Nat) (v : Option α) :
    rlistLpush F m v self.mirror = (rlistRpush F m v self).map (Prod.map id Rlist.mirror) := by
  unfold rlistLpush rlistRpush
  split
  · rfl
  · cases m with
    | none => rfl
    | some a =>
      have hset (p : Option Nat) : self.mirror.setNode a ⟨none, p, F.newVal v⟩ =
          (self.setNode a ⟨p, none, F.newVal v⟩).mirror :=
        self.setNode_mirror a ⟨p, none, F.newVal v⟩
      dsimp only
      rw [hset, hset]
      change (if 0 < self.len then _ else _) = _
      split
      · change Except.bind (Rlist.modifyNode (self.setNode a ⟨self.tail, none, _⟩).mirror _ self.tail) _ =
          Except.map _ (Except.bind (Rlist.modifyNode _ _ self.tail) _)
        rw [Rlist.modifyNode_mirror _ (f := fun x => { x with next := some a }) fun _ => rfl]
        cases Rlist.modifyNode _ _ self.tail <;> rfl
      · rfl

theorem rlistLpop_mirror (self : Rlist α) :
    rlistLpop self.mirror = (rlistRpop self).map (Prod.map id Rlist.mirror) := by
  have hdetach (s : Rlist α) (p : Option Nat) :=
    s.modifyNode_mirror (f := fun x => { x with next := none, prev := none })
      (g := fun x => { x with next := none, prev := none }) (fun _ => rfl) p
  unfold rlistLpop rlistRpop
  change (if self.len = 0 then _ else _) = _
  split
  · rfl
  · dsimp only
    change (if self.len - 1 ≠ 0 then _ else _) = _
    split
    · change Except.bind (Rlist.node (Rlist.mirror { self with len := self.len - 1 }) self.tail) _ =
        Except.map _ (Except.bind (Rlist.node { self with len := self.len - 1 } self.tail) _)
      rw [Rlist.node_mirror]
      cases Rlist.node _ self.tail with
      | error e => rfl
      | ok last =>
        change Except.bind
            (Rlist.modifyNode (Rlist.mirror ⟨self.head, last.prev, self.len - 1, self.nodes, self.freed⟩) _ last.prev) _ =
          Except.map _ (Except.bind
            (Rlist.modifyNode ⟨self.head, last.prev, self.len - 1, self.nodes, self.freed⟩ _ last.prev) _)
        rw [Rlist.modifyNode_mirror _ (f := fun x => { x with next := none }) fun _ => rfl]
        cases Rlist.modifyNode _ _ last.prev with
        | error e => rfl
        | ok s =>
          change Except.bind (s.mirror.modifyNode _ self.tail) _ =
            Except.map _ (Except.bind (s.modifyNode _ self.tail) _)
          rw [hdetach]
          cases Rlist.modifyNode s _ self.tail <;> rfl
    · change Except.bind
          (Rlist.modifyNode (Rlist.mirror ⟨none, none, self.len - 1, self.nodes, self.freed⟩) _ self.tail) _ =
        Except.map _ (Except.bind
          (Rlist.modifyNode ⟨none, none, self.len - 1, self.nodes, self.freed⟩ _ self.tail) _)
      rw [hdetach]
      cases Rlist.modifyNode _ _ self.tail <;> rfl

/-! ### What the representation says -/

namespace RlistRep

variable (h : RlistRep self l) {v : Option α}
include h

theorem nodup : (l.map Prod.fst).Nodup := h.next.nodup

theorem allocated {b : Nat} (hb : b ∈ l.map Prod.fst) : ∃ node, self.nodes b = some node := by
  have hlink := h.next.isSome hb
  rw [Rlist.nextOf, Option.isSome_map] at hlink
  exact Option.isSome_iff_exists.mp hlink

theorem ne_of_free (ha : self.nodes a = none) {b : Nat} (hb : b ∈ l.map Prod.fst) : b ≠ a := by
  rintro rfl
  obtain ⟨node, hnode⟩ := h.allocated hb
  rw [ha] at hnode
  cases hnode

/-- The fields of a node of the list. -/
theorem fields (l₁ l₂ : List (Nat × Option α)) (hl : l = l₁ ++ (a, v) :: l₂) : self.nodes a =
    some ⟨(l₁.map Prod.fst).getLast?, (l₂.map Prod.fst).head?, v⟩ := by
  subst hl
  have hval := h.val (a, v) (by simp)
  have hnext := h.next
  have hprev := h.prev
  simp only [List.map_append, List.map_cons] at hnext hprev
  rw [List.reverse_append, List.reverse_cons, List.append_assoc, List.singleton_append] at hprev
  obtain ⟨-, -, -, n, hn, hnrest⟩ := path_append.mp hnext
  obtain ⟨-, -, -, p, hp, hprest⟩ := path_append.mp hprev
  rw [hnrest.head, Rlist.nextOf, Option.map_eq_some_iff] at hn
  obtain ⟨⟨prev, next, val⟩, hnode, rfl⟩ := hn
  have hlast := hprest.head
  simp only [Rlist.prevOf, Rlist.valOf, hnode, Option.map_some, Option.some.injEq] at hp hval
  rw [hnode, hp, hlast, List.head?_reverse, hval]

theorem head_eq : self.head = (l.map Prod.fst).head? := h.next.head

theorem tail_eq : self.tail = (l.map Prod.fst).getLast? := by
  rw [h.prev.head, List.head?_reverse]

theorem len_toNat (hlen : l.length < 4294967296) : self.len.toNat = l.length := by
  rw [h.len, UInt32.toNat_ofNat_of_lt' hlen]

theorem len_eq_zero (hlen : l.length < 4294967296) : self.len = 0 ↔ l = [] := by
  rw [← UInt32.toNat_inj, h.len_toNat hlen]
  exact List.length_eq_zero_iff

end RlistRep

/-! ### Pushing -/

theorem rlistRpush_spec (h : RlistRep self l) (hlen : l.length < 4294967296)
    (ha : self.nodes a = none) (v : α) :
    (rlistRpush F (some a) (some v) self).Succeeds fun r =>
      r.1 = some a ∧ RlistRep r.2 (l ++ [(a, F.newVal (some v))]) ∧
        ∀ b ≠ a, self.nodes b = none → r.2.nodes b = none := by
  rw [rlistRpush, if_neg (by simp)]
  have hcount : self.len + 1 = UInt32.ofNat (l ++ [(a, F.newVal (some v))]).length := by
    rw [h.len, List.length_append, UInt32.ofNat_add]
    rfl
  have hfresh {b : Nat} (hb : b ∈ l.map Prod.fst) : b ≠ a := h.ne_of_free ha hb
  dsimp only
  split
  next hpos =>
    have hne : l ≠ [] := fun hnil => by simp [(h.len_eq_zero hlen).mpr hnil] at hpos
    obtain ⟨front, ⟨t, w⟩, rfl⟩ : ∃ front p, l = front ++ [p] :=
      ⟨l.dropLast, l.getLast hne, (List.dropLast_append_getLast hne).symm⟩
    have hta : t ≠ a := hfresh (by simp)
    have htail : self.tail = some t := by simp [h.tail_eq]
    have hlast : self.nodes t = some ⟨(front.map Prod.fst).getLast?, none, w⟩ := h.fields front [] rfl
    have hnode : (self.setNode a ⟨some t, none, F.newVal (some v)⟩).nodes t = _ :=
      (Function.update_of_ne hta _ _).trans hlast
    have hfront : t ∉ front.map Prod.fst := by
      have hnodup := h.nodup
      simp only [List.map_append, List.map_cons, List.map_nil] at hnodup
      exact fun hmem => (List.nodup_append.mp hnodup).2.2 t hmem t (by simp) rfl
    simp only [Rlist.setNode_tail, htail]
    rw [Rlist.modifyNode_ok hnode]
    refine Succeeds.ok ⟨rfl, ⟨?_, ?_, ?_, hcount⟩, fun b hba hb => ?_⟩
    · change Path (Rlist.setNode _ t _).nextOf self.head _ none
      rw [Rlist.nextOf_setNode, Rlist.nextOf_setNode, h.head_eq]
      have hpath : Path (Function.update (Function.update self.nextOf a (some none)) t (some (some a)))
          ((front ++ [(t, w)]).map Prod.fst ++ [a]).head? ((front ++ [(t, w)]).map Prod.fst ++ [a]) none := by
        refine h.next.snoc (by simp [hta.symm]) (by simp) fun c hc => ?_
        have hct : c ≠ t := by
          rintro rfl
          exact hfront (by simpa using hc)
        rw [Function.update_of_ne hct, Function.update_of_ne (hfresh (List.dropLast_subset _ hc))]
      simpa using hpath
    · change Path (Rlist.setNode _ t _).prevOf (some a) _ none
      rw [Rlist.prevOf_setNode_keep hnode (by rfl), Rlist.prevOf_setNode, List.map_append, List.reverse_append]
      refine ⟨rfl, some t, Function.update_self .., ?_⟩
      rw [← htail]
      apply h.prev.congr
      intro c hc
      exact Function.update_of_ne (hfresh (List.mem_reverse.mp hc)) _ _
    · rintro ⟨b, u⟩ hb
      change (Rlist.setNode _ t _).valOf b = _
      rw [Rlist.valOf_setNode_keep hnode (by rfl), Rlist.valOf_setNode]
      rcases List.mem_append.mp hb with hb | hb
      · rw [Function.update_of_ne (hfresh (List.mem_map_of_mem hb)), h.val _ hb]
      · obtain ⟨rfl, rfl⟩ : b = a ∧ u = F.newVal (some v) := by simpa using hb
        exact Function.update_self ..
    · have hbt : b ≠ t := fun heq => by simp [← heq, hb] at hlast
      change (Rlist.setNode (Rlist.setNode _ a _) t _).nodes b = none
      simp [Rlist.setNode, hbt, hba, hb]
  next hzero =>
    obtain rfl : l = [] := (h.len_eq_zero hlen).mp (by simpa using hzero)
    refine Succeeds.ok ⟨rfl, ⟨?_, ?_, ?_, hcount⟩, fun b hba hb => by simp [Rlist.setNode, hba, hb]⟩
    · exact ⟨rfl, none, by simp [Rlist.nextOf, Rlist.setNode], rfl⟩
    · exact ⟨rfl, none, by simp [Rlist.prevOf, Rlist.setNode], rfl⟩
    · simp [Rlist.valOf, Rlist.setNode]

theorem rlistLpush_spec (h : RlistRep self l) (hlen : l.length < 4294967296)
    (ha : self.nodes a = none) (v : α) :
    (rlistLpush F (some a) (some v) self).Succeeds fun r =>
      r.1 = some a ∧ RlistRep r.2 ((a, F.newVal (some v)) :: l) := by
  have hspec := rlistRpush_spec (F := F) h.mirror (by simpa using hlen)
    (by simp [Rlist.mirror, ha] : self.mirror.nodes a = none) v
  rw [← self.mirror_mirror, rlistLpush_mirror]
  refine Succeeds.map (hspec.mono ?_)
  rintro ⟨r, s⟩ ⟨hr, hs, -⟩
  refine ⟨hr, ?_⟩
  have hmirror := hs.mirror
  rwa [List.reverse_append, List.reverse_reverse] at hmirror

/-! ### Popping -/

theorem rlistRpop_spec (h : RlistRep self l) (hlen : l.length < 4294967296) :
    (rlistRpop self).Succeeds fun r =>
      r.1 = (l.map Prod.fst).getLast? ∧ RlistRep r.2 l.dropLast := by
  rw [rlistRpop]
  rcases List.eq_nil_or_concat l with rfl | ⟨front, ⟨t, w⟩, rfl⟩
  · rw [if_pos ((h.len_eq_zero hlen).mpr rfl)]
    exact Succeeds.ok ⟨rfl, h⟩
  rw [List.concat_eq_append] at *
  rw [List.dropLast_concat, if_neg (mt (h.len_eq_zero hlen).mp (by simp))]
  have htail : self.tail = some t := by simp [h.tail_eq]
  have hlast : self.nodes t = some ⟨(front.map Prod.fst).getLast?, none, w⟩ := h.fields front [] rfl
  have hcount : self.len - 1 = UInt32.ofNat front.length := by
    rw [h.len, List.length_append, UInt32.ofNat_add]
    exact UInt32.add_sub_cancel _ _
  have hzero : self.len - 1 = 0 ↔ front = [] := by
    rw [hcount, ← UInt32.toNat_inj, UInt32.toNat_ofNat_of_lt' (Nat.lt_of_le_of_lt (by simp) hlen)]
    exact List.length_eq_zero_iff
  dsimp only
  rcases List.eq_nil_or_concat front with rfl | ⟨front, ⟨p, u⟩, rfl⟩
  · rw [if_neg (not_not.mpr (hzero.mpr rfl)), htail]
    have hnode : (Rlist.nodes ⟨none, none, self.len - 1, self.nodes, self.freed⟩) t = _ := hlast
    change (Except.bind (Rlist.modifyNode ⟨none, none, _, _, _⟩ _ (some t)) _).Succeeds _
    rw [Rlist.modifyNode_ok hnode]
    refine Succeeds.ok ⟨by simp, rfl, rfl, by simp, hcount⟩
  · rw [List.concat_eq_append] at *
    rw [if_pos (mt hzero.mp (by simp)), htail]
    have hlast : self.nodes t = some ⟨some p, none, w⟩ := by simpa using hlast
    have hp : self.nodes p = some ⟨(front.map Prod.fst).getLast?, some t, u⟩ :=
      h.fields front [(t, w)] (by simp)
    have hnodup := h.nodup
    simp only [List.map_append, List.map_cons, List.map_nil, List.nodup_append] at hnodup
    have hpt : p ≠ t := hnodup.2.2 p (by simp) t (by simp)
    have hfront : t ∉ front.map Prod.fst := fun hmem => hnodup.2.2 t (by simp [hmem]) t (by simp) rfl
    let s : Rlist α := ⟨self.head, some p, self.len - 1, self.nodes, self.freed⟩
    have hnode : (s.setNode p ⟨(front.map Prod.fst).getLast?, none, u⟩).nodes t = _ :=
      (Function.update_of_ne hpt.symm _ _).trans hlast
    rw [Rlist.node_ok (s := ⟨self.head, some t, self.len - 1, self.nodes, self.freed⟩) hlast]
    change (Except.bind (s.modifyNode _ (some p)) _).Succeeds _
    rw [Rlist.modifyNode_ok (s := s) hp]
    change (Except.bind (Rlist.modifyNode (s.setNode p _) _ (some t)) _).Succeeds _
    rw [Rlist.modifyNode_ok hnode]
    refine Succeeds.ok ⟨by simp, ?_, ?_, ?_, hcount⟩
    · change Path (Rlist.setNode _ t _).nextOf self.head _ none
      have hs : s.nextOf = self.nextOf := rfl
      rw [Rlist.nextOf_setNode, Rlist.nextOf_setNode, hs, h.head_eq]
      have hnext : Path self.nextOf self.head ((front ++ [(p, u)]).map Prod.fst ++ t :: []) none := by
        simpa using h.next
      have hpath : Path (Function.update (Function.update self.nextOf p (some none)) t (some none))
          ((front ++ [(p, u)]).map Prod.fst ++ []).head? ((front ++ [(p, u)]).map Prod.fst ++ []) none := by
        refine hnext.remove (by simp [hpt]) fun c hc => ?_
        have hc : c ∈ front.map Prod.fst := by simpa using hc
        rw [Function.update_of_ne (ne_of_mem_of_not_mem hc hfront), Function.update_of_ne]
        exact hnodup.1.2.2 c hc p (by simp)
      simpa using hpath
    · change Path (Rlist.setNode _ t _).prevOf (some p) _ none
      rw [Rlist.prevOf_setNode, Rlist.prevOf_setNode_keep (s := s) hp (by rfl)]
      have hprev := h.prev
      rw [htail, List.map_append, List.reverse_append] at hprev
      obtain ⟨-, r, hr, hrest⟩ := hprev
      obtain rfl : some p = r := by simpa [Rlist.prevOf, hlast] using hr
      refine hrest.congr fun c hc => Function.update_of_ne ?_ _ _
      exact hnodup.2.2 c (by simpa [or_comm] using hc) t (by simp)
    · intro x hx
      change (Rlist.setNode _ t _).valOf x.1 = _
      rw [Rlist.valOf_setNode_keep hnode (by rfl), Rlist.valOf_setNode_keep (s := s) hp (by rfl)]
      exact h.val x (List.mem_append_left _ hx)

theorem rlistLpop_spec (h : RlistRep self l) (hlen : l.length < 4294967296) :
    (rlistLpop self).Succeeds fun r => r.1 = (l.map Prod.fst).head? ∧ RlistRep r.2 l.tail := by
  have hspec := rlistRpop_spec h.mirror (by simpa using hlen)
  rw [← self.mirror_mirror, rlistLpop_mirror]
  refine Succeeds.map (hspec.mono ?_)
  rintro ⟨r, s⟩ ⟨hr, hs⟩
  refine ⟨?_, ?_⟩
  · rwa [List.map_reverse, List.getLast?_reverse] at hr
  · have hmirror := hs.mirror
    rwa [List.dropLast_reverse, List.reverse_reverse] at hmirror

/-! ### Removing -/

/-- The list when `rlistSetNext` has succeeded. -/
def Rlist.withNext (self : Rlist α) (prev next : Option Nat) : Rlist α :=
  match prev with
  | some p => { self with
      nodes := Function.update self.nodes p ((self.nodes p).map fun x => { x with next := next }) }
  | none => { self with head := next }

def Rlist.withPrev (self : Rlist α) (next prev : Option Nat) : Rlist α :=
  (self.mirror.withNext next prev).mirror

theorem rlistSetNext_ok {prev : Option Nat} (h : ∀ p ∈ prev, ∃ node, s.nodes p = some node)
    (next : Option Nat) : rlistSetNext prev next s = .ok (s.withNext prev next) := by
  cases prev with
  | none => rfl
  | some p =>
    obtain ⟨node, hnode⟩ := h p rfl
    simp only [rlistSetNext, Rlist.modifyNode_ok hnode, Rlist.withNext, hnode]
    rfl

theorem rlistSetPrev_mirror (s : Rlist α) (next prev : Option Nat) :
    rlistSetPrev next prev s.mirror = (rlistSetNext next prev s).map Rlist.mirror := by
  cases next with
  | none => rfl
  | some n => exact s.modifyNode_mirror (f := fun x => { x with next := prev }) (fun _ => rfl) (some n)

theorem rlistSetPrev_ok {next : Option Nat} (h : ∀ n ∈ next, ∃ node, s.nodes n = some node)
    (prev : Option Nat) : rlistSetPrev next prev s = .ok (s.withPrev next prev) := by
  rw [← s.mirror_mirror, rlistSetPrev_mirror, rlistSetNext_ok, Rlist.withPrev, Rlist.mirror_mirror]
  · rfl
  · intro n hn
    obtain ⟨node, hnode⟩ := h n hn
    exact ⟨node.mirror, by simp [Rlist.mirror, hnode]⟩

theorem Rlist.nextOf_withNext (s : Rlist α) (prev next : Option Nat) (b : Nat) :
    (s.withNext prev next).nextOf b = if prev = some b then (s.nextOf b).map fun _ => next else s.nextOf b := by
  cases prev with
  | none => simp [Rlist.withNext, Rlist.nextOf]
  | some p =>
    by_cases hpb : p = b
    · subst hpb
      simp [Rlist.withNext, Rlist.nextOf, Function.comp_def]
    · have hbp : b ≠ p := fun heq => hpb heq.symm
      simp [Rlist.withNext, Rlist.nextOf, hpb, hbp]

/-- Only the link changes. -/
theorem Rlist.map_withNext {β : Type} {f : RlistNode α → β} {next : Option Nat}
    (hf : ∀ x : RlistNode α, f { x with next := next } = f x) (s : Rlist α) (prev : Option Nat) (b : Nat) :
    ((s.withNext prev next).nodes b).map f = (s.nodes b).map f := by
  cases prev with
  | none => rfl
  | some p =>
    by_cases hbp : b = p
    · subst hbp
      simp [Rlist.withNext, Function.comp_def, hf]
    · simp [Rlist.withNext, hbp]

theorem Rlist.nodes_withNext_of_ne {prev next : Option Nat} (h : prev ≠ some a) :
    (s.withNext prev next).nodes a = s.nodes a := by
  cases prev with
  | none => rfl
  | some p =>
    have hap : a ≠ p := fun heq => h (heq ▸ rfl)
    simp [Rlist.withNext, hap]

theorem Rlist.tail_withNext (s : Rlist α) (prev next : Option Nat) : (s.withNext prev next).tail = s.tail := by
  cases prev <;> rfl

theorem Rlist.len_withNext (s : Rlist α) (prev next : Option Nat) : (s.withNext prev next).len = s.len := by
  cases prev <;> rfl

theorem Rlist.prevOf_withNext (s : Rlist α) (prev next : Option Nat) :
    (s.withNext prev next).prevOf = s.prevOf := by
  funext b
  exact s.map_withNext (fun _ => rfl) prev b

theorem Rlist.valOf_withNext (s : Rlist α) (prev next : Option Nat) :
    (s.withNext prev next).valOf = s.valOf := by
  funext b
  exact s.map_withNext (fun _ => rfl) prev b

theorem Rlist.nextOf_withPrev (s : Rlist α) (next prev : Option Nat) :
    (s.withPrev next prev).nextOf = s.nextOf := by
  rw [Rlist.withPrev, Rlist.nextOf_mirror, Rlist.prevOf_withNext, Rlist.prevOf_mirror]

theorem Rlist.head_withPrev (s : Rlist α) (next prev : Option Nat) : (s.withPrev next prev).head = s.head := by
  change (s.mirror.withNext next prev).tail = _
  rw [Rlist.tail_withNext]
  rfl

theorem Rlist.len_withPrev (s : Rlist α) (next prev : Option Nat) : (s.withPrev next prev).len = s.len := by
  change (s.mirror.withNext next prev).len = _
  rw [Rlist.len_withNext]
  rfl

theorem Rlist.valOf_withPrev (s : Rlist α) (next prev : Option Nat) :
    (s.withPrev next prev).valOf = s.valOf := by
  rw [Rlist.withPrev, Rlist.valOf_mirror, Rlist.valOf_withNext, Rlist.valOf_mirror]

section withNext

variable {l₁ l₂ : List Nat} {p : Option Nat}

theorem Rlist.path_withNext (h : Path s.nextOf s.head (l₁ ++ a :: l₂) none) :
    Path (s.withNext l₁.getLast? l₂.head?).nextOf (l₁ ++ l₂).head? (l₁ ++ l₂) none := by
  have hnodup := List.nodup_append.mp h.nodup
  refine h.remove (fun c hc => ?_) fun c hc => ?_
  · have hlink := h.isSome (a := c) (List.mem_append_left _ (List.mem_of_getLast? hc))
    obtain ⟨n, hn⟩ := Option.isSome_iff_exists.mp hlink
    rw [Rlist.nextOf_withNext, if_pos (Option.mem_def.mp hc), hn]
    rfl
  · rw [Rlist.nextOf_withNext, if_neg]
    intro hlast
    obtain ⟨front, rfl⟩ := List.getLast?_eq_some_iff.mp hlast
    rw [List.dropLast_concat] at hc
    rcases List.mem_append.mp hc with hc | hc
    · exact (List.nodup_append.mp hnodup.1).2.2 c hc c (by simp) rfl
    · exact hnodup.2.2 c (by simp) c (by simp [hc]) rfl

theorem Rlist.head_withNext (h : s.head = (l₁ ++ a :: l₂).head?) :
    (s.withNext l₁.getLast? l₂.head?).head = (l₁ ++ l₂).head? := by
  rcases List.eq_nil_or_concat l₁ with rfl | ⟨front, b, rfl⟩
  · rfl
  · rw [List.concat_eq_append] at *
    rw [List.getLast?_concat, Rlist.withNext, h]
    simp

theorem Rlist.path_withPrev (h : Path s.prevOf s.tail (l₁ ++ a :: l₂).reverse none) :
    Path (s.withPrev l₂.head? l₁.getLast?).prevOf (l₁ ++ l₂).getLast? (l₁ ++ l₂).reverse none := by
  have hmirror : Path s.mirror.nextOf s.mirror.head (l₂.reverse ++ a :: l₁.reverse) none := by
    rw [Rlist.nextOf_mirror]
    change Path s.prevOf s.tail _ none
    simpa using h
  have hpath := Rlist.path_withNext hmirror
  rw [← List.reverse_append, List.head?_reverse, List.head?_reverse, List.getLast?_reverse] at hpath
  rw [Rlist.withPrev, Rlist.prevOf_mirror]
  exact hpath

theorem Rlist.tail_withPrev (h : s.tail = (l₁ ++ a :: l₂).getLast?) :
    (s.withPrev l₂.head? l₁.getLast?).tail = (l₁ ++ l₂).getLast? := by
  have hmirror : s.mirror.head = (l₂.reverse ++ a :: l₁.reverse).head? := by
    change s.tail = _
    rw [h, ← List.head?_reverse, List.reverse_append, List.reverse_cons, List.append_assoc,
      List.singleton_append]
  have hhead := Rlist.head_withNext hmirror
  rw [← List.reverse_append, List.head?_reverse, List.head?_reverse, List.getLast?_reverse] at hhead
  exact hhead

end withNext

theorem rlistRemove_spec {v : Option α} {l₁ l₂ : List (Nat × Option α)}
    (h : RlistRep self (l₁ ++ (a, v) :: l₂)) :
    (rlistRemove F (some a) self).Succeeds fun s => RlistRep s (l₁ ++ l₂) := by
  have hnode := h.fields l₁ l₂ rfl
  have hnodup := h.nodup
  rw [List.map_append, List.map_cons, List.nodup_append, List.nodup_cons] at hnodup
  obtain ⟨-, ⟨ha₂, -⟩, ha₁⟩ := hnodup
  have hne {c : Nat} (hc : c ∈ (l₁ ++ l₂).map Prod.fst) : c ≠ a := by
    rintro rfl
    rw [List.map_append, List.mem_append] at hc
    exact hc.elim (fun hc => ha₁ c hc c (by simp) rfl) ha₂
  set prev := (l₁.map Prod.fst).getLast? with hprev
  set next := (l₂.map Prod.fst).head? with hnext
  have hprevNode : ∀ p ∈ prev, ∃ node, self.nodes p = some node := fun p hp =>
    h.allocated (by simp [List.mem_of_getLast? hp])
  have hnextNode : ∀ n ∈ next, ∃ node, (self.withNext prev next).nodes n = some node := by
    intro n hn
    obtain ⟨node, hold⟩ := h.allocated (b := n) (by simp [List.mem_of_head? hn])
    have hsome : ((self.withNext prev next).nodes n).map (fun _ => ()) = (self.nodes n).map fun _ => () :=
      self.map_withNext (fun _ => rfl) prev n
    simpa [hold, Option.map_eq_some_iff] using hsome
  have hnode₁ : (self.withNext prev next).nodes a = some ⟨prev, next, v⟩ :=
    (Rlist.nodes_withNext_of_ne fun heq => ha₁ a (List.mem_of_getLast? heq) a (by simp) rfl).trans hnode
  have hkeep := Rlist.nextOf_withPrev (self.withNext prev next) next prev
  obtain ⟨node, hnode₂⟩ : ∃ node, ((self.withNext prev next).withPrev next prev).nodes a = some node := by
    have hlink := congrFun hkeep a
    simp only [Rlist.nextOf, hnode₁, Option.map_some, Option.map_eq_some_iff] at hlink
    exact ⟨_, hlink.choose_spec.1⟩
  change (Except.bind (self.node (some a)) _).Succeeds _
  rw [Rlist.node_ok hnode]
  change (Except.bind (rlistSetNext prev next self) _).Succeeds _
  rw [rlistSetNext_ok hprevNode]
  change (Except.bind (Rlist.node _ (some a)) _).Succeeds _
  rw [Rlist.node_ok hnode₁]
  change (Except.bind (rlistSetPrev next prev _) _).Succeeds _
  rw [rlistSetPrev_ok hnextNode]
  change (Except.bind (rlistFreeNode F _ (some a)) _).Succeeds _
  rw [rlistFreeNode_ok hnode₂]
  have hfree {β : Type} (f : RlistNode α → β) (s : Rlist α) {c : Nat} (hc : c ∈ (l₁ ++ l₂).map Prod.fst) :
      (Function.update s.nodes a none c).map f = (s.nodes c).map f := by
    rw [Function.update_of_ne (hne hc)]
  have hnextPath : Path self.nextOf self.head (l₁.map Prod.fst ++ a :: l₂.map Prod.fst) none := by
    simpa using h.next
  have hprevPath : Path (self.withNext prev next).prevOf (self.withNext prev next).tail
      (l₁.map Prod.fst ++ a :: l₂.map Prod.fst).reverse none := by
    rw [Rlist.prevOf_withNext, Rlist.tail_withNext]
    simpa using h.prev
  have hhead := Rlist.head_withNext hnextPath.head
  have htail := Rlist.tail_withPrev (hprevPath.head.trans List.head?_reverse)
  refine Succeeds.ok ⟨?_, ?_, ?_, ?_⟩
  · have hpath := Rlist.path_withNext hnextPath
    rw [← hhead, ← List.map_append, ← hkeep] at hpath
    change Path _ ((self.withNext prev next).withPrev next prev).head _ none
    rw [Rlist.head_withPrev]
    exact hpath.congr fun c hc => hfree _ _ hc
  · have hpath := Rlist.path_withPrev hprevPath
    rw [← htail, ← List.map_append] at hpath
    exact hpath.congr fun c hc => hfree _ _ (List.mem_reverse.mp hc)
  · intro x hx
    refine (hfree _ _ (List.mem_map_of_mem hx)).trans ?_
    change Rlist.valOf _ _ = _
    rw [Rlist.valOf_withPrev, Rlist.valOf_withNext]
    refine h.val x ?_
    rw [List.mem_append] at hx ⊢
    exact hx.imp_right (List.mem_cons_of_mem _)
  · have hcount : (l₁ ++ (a, v) :: l₂).length = (l₁ ++ l₂).length + 1 := by
      simp only [List.length_append, List.length_cons]
      omega
    change ((self.withNext prev next).withPrev next prev).len - 1 = _
    rw [Rlist.len_withPrev, Rlist.len_withNext, h.len, hcount, UInt32.ofNat_add]
    exact UInt32.add_sub_cancel _ _

/-! ### Clearing -/

/-- The walk reads a node before it frees it, and never a freed one again. -/
theorem rlistClearLoop_succeeds {p : Option Nat} {as : List Nat} (h : Path s.nextOf p as none) :
    (rlistClearLoop F as.length p s).Succeeds fun _ => True := by
  induction as generalizing s p with
  | nil => exact Succeeds.ok trivial
  | cons b as ih =>
    have hnodup := h.nodup
    obtain ⟨rfl, r, hr, hrest⟩ := h
    obtain ⟨node, hnode, rfl⟩ := Option.map_eq_some_iff.mp hr
    change (Except.bind (s.node (some b)) _).Succeeds _
    rw [Rlist.node_ok hnode]
    change (Except.bind (rlistFreeNode F s (some b)) _).Succeeds _
    rw [rlistFreeNode_ok hnode]
    apply ih
    refine hrest.congr fun c hc => ?_
    have hcb : c ≠ b := fun heq => (List.nodup_cons.mp hnodup).1 (heq ▸ hc)
    simp [Rlist.nextOf, hcb]

theorem rlistClear_spec (h : RlistRep self l) (hlen : l.length < 4294967296) :
    (rlistClear F self).Succeeds fun s => RlistRep s [] := by
  rw [rlistClear]
  split
  next hzero =>
    obtain rfl : l = [] := (h.len_eq_zero hlen).mp hzero
    exact Succeeds.ok h
  next =>
    have hloop := rlistClearLoop_succeeds (F := F) h.next
    rw [List.length_map, ← h.len_toNat hlen] at hloop
    refine Succeeds.bind hloop fun s _ => Succeeds.ok ⟨rfl, rfl, by simp, rfl⟩

end Funra
