import Funra.Pool.Runs

/-!
# The chain of all pools

`rpool_create` puts a node for the new pool behind the root of `rpool_chain`, `rpool_destroy` unlinks the
node of its pool, `rpool_uninit_global` destroys what is left. `ChainHolds` says that the chain is a doubly
linked list of the nodes of the live pools.

`rpool_create` does not set the back link of the node that was first: every `prev` is the root. A second
pool breaks the back links at once, and the next `rpool_destroy` of the older one cuts the newer one off
(`chain_cut`). With one pool at a time the chain holds (`chainHolds_run`).
-/

namespace Funra

open Mem System Linked

/-- `ty` stands for the functions of the type, `rpool_destroy_pool_func` among them. -/
structure RpoolChainNode where
  poolSelf : Nat
  ty : Nat
  prev : Option Nat
  next : Option Nat
  deriving DecidableEq, Repr

/-- `chain` is `rpool_chain`, `dataPool` the variable of each type. -/
structure RpoolGlobal where
  chain : Option Nat
  nodes : Nat → Option RpoolChainNode
  pools : Nat → Option Rpool
  dataPool : Nat → Option Nat

/-- What the calls of `malloc` in `rpool_create` return. -/
structure RpoolCreateAlloc where
  pool : Option Nat
  blocks : RpoolAlloc
  node : Option Nat
  deriving DecidableEq, Repr

namespace RpoolGlobal

variable (g : RpoolGlobal)

def node : Option Nat → Except Fault RpoolChainNode
  | none => .error .nullDeref
  | some n =>
    match g.nodes n with
    | none => .error .useAfterFree
    | some node => .ok node

/-- An assignment to a field of the node behind a pointer. -/
def modifyNode (f : RpoolChainNode → RpoolChainNode) : Option Nat → Except Fault RpoolGlobal
  | none => .error .nullDeref
  | some n =>
    match g.nodes n with
    | none => .error .useAfterFree
    | some node => .ok { g with nodes := Function.update g.nodes n (some (f node)) }

def freeNode (n : Nat) : Except Fault RpoolGlobal :=
  match g.nodes n with
  | none => .error .useAfterFree
  | some _ => .ok { g with nodes := Function.update g.nodes n none }

def nextNode (n : Nat) : Option (Option Nat) := (g.nodes n).map RpoolChainNode.next

def prevNode (n : Nat) : Option (Option Nat) := (g.nodes n).map RpoolChainNode.prev

end RpoolGlobal

/-- `a` is fresh, and `raw` what `malloc` leaves there. -/
def rpoolInitGlobal (a : Nat) (raw : RpoolChainNode) (g : RpoolGlobal) : RpoolGlobal :=
  if g.chain = none then
    let root : RpoolChainNode := { raw with next := none, prev := none }
    { g with chain := some a, nodes := Function.update g.nodes a (some root) }
  else g

def rpoolCreate (types : Nat → RpoolType) (ty : Nat) (m : RpoolCreateAlloc) (g : RpoolGlobal) :
    Except Fault (Option Nat × RpoolGlobal) :=
  match m.pool with
  | none => .ok (none, g)
  | some a =>
    match newRpool (types ty) m.blocks with
    | none => .ok (none, g)
    | some pool => do
      let g := { g with pools := Function.update g.pools a (some pool) }
      match m.node with
      | none => return (none, g)
      | some n => do
        let root ← g.node g.chain
        let node : RpoolChainNode := ⟨a, ty, g.chain, root.next⟩
        let g := { g with nodes := Function.update g.nodes n (some node) }
        let g ← g.modifyNode (fun x => { x with next := some n }) g.chain
        return (some a, g)

/-- The loop of `rpool_destroy` over the blocks. -/
def destroyBlocks (size : Nat) : Nat → Option Nat → Rpool → Except Fault Rpool
  | 0, _, _ => .error .outOfFuel
  | _, none, pool => .ok pool
  | fuel + 1, some b, pool => do
    let blk ← pool.block (some b)
    let pool ← pool.setPrev blk.prevBlock blk.nextBlock
    destroyBlocks size fuel blk.nextBlock (pool.freeBlock size b blk)

/-- The node of a pool leaves the chain. -/
def unlinkNode (g : RpoolGlobal) (n : Nat) (node : RpoolChainNode) : Except Fault RpoolGlobal := do
  let g ←
    match node.prev with
    | some p => g.modifyNode (fun x => { x with next := node.next }) (some p)
    | none => pure { g with chain := node.next }
  let g ←
    match node.next with
    | some q => g.modifyNode (fun x => { x with prev := node.prev }) (some q)
    | none => pure g
  g.freeNode n

/-- The loop of `rpool_destroy` over the chain, from a pointer on. -/
def unlinkLoop (a : Nat) : Nat → Option Nat → RpoolGlobal → Except Fault RpoolGlobal
  | 0, _, _ => .error .outOfFuel
  | _, none, g => .ok g
  | fuel + 1, some n, g => do
    let node ← g.node (some n)
    if node.poolSelf = a then unlinkNode g n node else unlinkLoop a fuel node.next g

def unlinkPool (fuel a : Nat) (g : RpoolGlobal) : Except Fault RpoolGlobal :=
  if g.chain = none then .ok g
  else do
    let root ← g.node g.chain
    unlinkLoop a fuel root.next g

def rpoolDestroy (types : Nat → RpoolType) (fuel ty : Nat) (pool : Option Nat) (g : RpoolGlobal) :
    Except Fault RpoolGlobal :=
  match pool.or (g.dataPool ty), g.dataPool ty with
  | some a, some _ =>
    match g.pools a with
    | none => .error .useAfterFree
    | some p => do
      let _ ← destroyBlocks (types ty).itemSize fuel p.freeHeadBlock p
      let g ← unlinkPool fuel a g
      return { g with
        pools := Function.update g.pools a none
        dataPool := Function.update g.dataPool ty none }
  | _, _ => .ok g

/-- The loop of `rpool_uninit_global`, with the pools it has destroyed. -/
def uninitLoop (types : Nat → RpoolType) : Nat → RpoolGlobal → Except Fault (List Nat × RpoolGlobal)
  | 0, _ => .error .outOfFuel
  | fuel + 1, g => do
    let root ← g.node g.chain
    match root.next with
    | none => return ([], g)
    | some n =>
      let node ← g.node (some n)
      let g ← g.modifyNode (fun x => { x with next := node.next }) g.chain
      let g ← rpoolDestroy types fuel node.ty (some node.poolSelf) g
      let g ← g.freeNode n
      let (destroyed, g) ← uninitLoop types fuel g
      return (node.poolSelf :: destroyed, g)

def rpoolUninitGlobal (types : Nat → RpoolType) (fuel : Nat) (g : RpoolGlobal) :
    Except Fault (List Nat × RpoolGlobal) :=
  match g.chain with
  | none => .ok ([], g)
  | some _ => do
    let (destroyed, g) ← uninitLoop types fuel g
    match g.chain with
    | none => return (destroyed, g)
    | some root => do
      let g ← g.freeNode root
      return (destroyed, { g with chain := none })

/-! ### Runs and the property -/

inductive RpoolChainOp
  | create (ty : Nat) (m : RpoolCreateAlloc)
  | destroy (ty : Nat)
  deriving DecidableEq, Repr

/-- The memory is there and is not in use. -/
structure RpoolCreateAlloc.Succeeds (m : RpoolCreateAlloc) (g : RpoolGlobal) : Prop where
  pool : ∃ a, m.pool = some a ∧ g.pools a = none
  block : m.blocks.block ≠ none
  items : m.blocks.items ≠ none
  node : ∃ n, m.node = some n ∧ g.nodes n = none

/-- `rcreate_pool`, assigned to the variable of the type, and `rdestroy_pool`. A type has one pool at a
time. -/
def RpoolChainStep (types : Nat → RpoolType) (g : RpoolGlobal) (op : RpoolChainOp) (g' : RpoolGlobal) :
    Prop :=
  match op with
  | .create ty m => g.dataPool ty = none ∧ m.Succeeds g ∧
      ∃ r g₁, rpoolCreate types ty m g = .ok (r, g₁) ∧
        g' = { g₁ with dataPool := Function.update g₁.dataPool ty r }
  | .destroy ty => ∃ fuel g₁, rpoolDestroy types fuel ty (g.dataPool ty) g = .ok g₁ ∧
      g' = { g₁ with dataPool := Function.update g₁.dataPool ty none }

/-- The node of the pool at `a`. -/
def RpoolGlobal.NodeOf (g : RpoolGlobal) (n a : Nat) : Prop :=
  ∃ node, g.nodes n = some node ∧ node.poolSelf = a

/-- From the root, `next` visits the node of every live pool once and no other, `prev` goes back, and
`rpool_uninit_global` destroys every live pool once. -/
structure ChainHolds (types : Nat → RpoolType) (g : RpoolGlobal) : Prop where
  linked : ∃ root p l, g.chain = some root ∧ g.nextNode root = some p ∧ Path g.nextNode p l none ∧
    Backed g.prevNode (some root) l ∧
    (∀ n ∈ l, ∃ a, g.NodeOf n a ∧ (g.pools a).isSome = true) ∧
    ∀ a, (g.pools a).isSome = true → ∃ n ∈ l, g.NodeOf n a ∧ ∀ n' ∈ l, g.NodeOf n' a → n' = n
  uninit : ∃ fuel destroyed g', rpoolUninitGlobal types fuel g = .ok (destroyed, g') ∧
    destroyed.Nodup ∧ (∀ a, a ∈ destroyed ↔ (g.pools a).isSome = true) ∧ ∀ a, g'.pools a = none

/-- The condition on a step: a pool is created only while there is no other. -/
def CreatesAlone (g : RpoolGlobal) (op : RpoolChainOp) : Prop :=
  ∀ ty m, op = .create ty m → ∀ a, g.pools a = none

/-! ### The two states with at most one pool -/

/-- The chain without a pool. -/
def emptyGlobal (root : Nat) (raw : RpoolChainNode) : RpoolGlobal where
  chain := some root
  nodes := Function.update (fun _ => none) root (some { raw with next := none, prev := none })
  pools := fun _ => none
  dataPool := fun _ => none

/-- The chain with one pool, that of `ty` at `a`, and its node at `n`. -/
def singleGlobal (root : Nat) (raw : RpoolChainNode) (n a ty : Nat) (pool : Rpool) : RpoolGlobal where
  chain := some root
  nodes := Function.update (Function.update (fun _ => none) root
    (some { raw with next := some n, prev := none })) n (some ⟨a, ty, some root, none⟩)
  pools := Function.update (fun _ => none) a (some pool)
  dataPool := Function.update (fun _ => none) ty (some a)

/-- At most one pool, whose blocks are linked. -/
def AtMostOne (g : RpoolGlobal) : Prop :=
  (∃ root raw, g = emptyGlobal root raw) ∨
    ∃ root raw n a ty pool l, n ≠ root ∧ g = singleGlobal root raw n a ty pool ∧
      Path pool.nextLink pool.freeHeadBlock l none

section steps

variable {types : Nat → RpoolType} {root n a ty : Nat} {raw : RpoolChainNode} {pool : Rpool}
  {l : List Nat} {g g' : RpoolGlobal}

/-- Every block of a linked list is released. -/
theorem destroyBlocks_spec (size : Nat) {fuel : Nat} {r : Option Nat} (h : Path pool.nextLink r l none)
    (hfuel : l.length < fuel) : ∃ pool', destroyBlocks size fuel r pool = .ok pool' := by
  induction l generalizing fuel r pool with
  | nil =>
    obtain ⟨fuel, rfl⟩ := Nat.exists_eq_add_of_lt hfuel
    obtain rfl : r = none := h
    exact ⟨pool, by simp only [destroyBlocks]⟩
  | cons b l ih =>
    obtain ⟨fuel, rfl⟩ : ∃ n, fuel = n + 1 := ⟨fuel - 1, by omega⟩
    have hnodup := h.nodup
    obtain ⟨rfl, q, hq, hrest⟩ := h
    obtain ⟨blk, hblk, rfl⟩ := Option.map_eq_some_iff.mp hq
    obtain ⟨p₁, hrun, -, hnext, -⟩ := @Rpool.setPrev_spec pool blk.nextBlock (fun s hs => by
      have hmem : s ∈ l := List.mem_of_mem_head? (hrest.head ▸ hs)
      obtain ⟨x, hx, -⟩ := Option.map_eq_some_iff.mp (Option.isSome_iff_exists.mp (hrest.isSome hmem)).choose_spec
      exact ⟨x, hx⟩) blk.prevBlock
    rw [List.length_cons] at hfuel
    have hpath : Path (p₁.freeBlock size b blk).nextLink blk.nextBlock l none := by
      refine hrest.congr fun c hc => ?_
      have hcb : c ≠ b := fun heq => (List.nodup_cons.mp hnodup).1 (heq ▸ hc)
      rw [← hnext, Rpool.nextLink, Rpool.nextLink, Rpool.freeBlock]
      simp only [Function.update_of_ne hcb]
    obtain ⟨pool', hpool'⟩ := ih hpath (by omega : l.length < fuel)
    refine ⟨pool', ?_⟩
    simp only [destroyBlocks, Rpool.block_eq hblk, hrun, bind, Except.bind]
    exact hpool'

theorem single_destroy (hn : n ≠ root) {fuel : Nat}
    (hrun : rpoolDestroy types fuel ty (some a) (singleGlobal root raw n a ty pool) = .ok g') :
    g' = emptyGlobal root raw := by
  have hnodes : ∀ x y z : Option RpoolChainNode, Function.update (Function.update (Function.update
      (Function.update (fun _ => none) root x) n y) root z) n none =
        Function.update (fun _ => none) root z := by
    intro x y z
    funext c
    by_cases hcn : c = n
    · simp [hcn, Function.update_of_ne hn]
    · by_cases hcr : c = root
      · simp [hcr, Function.update_of_ne hn.symm]
      · simp [Function.update_of_ne hcn, Function.update_of_ne hcr]
  simp only [rpoolDestroy, singleGlobal, Function.update_self, Option.some_or, bind, Except.bind] at hrun
  obtain ⟨_, -, hrun⟩ := Except.of_bind_ok hrun
  cases fuel with
  | zero =>
    simp [bind, Except.bind, unlinkPool, RpoolGlobal.node, Function.update_of_ne hn.symm,
      unlinkLoop] at hrun
  | succ fuel =>
    simp [bind, Except.bind, pure, Except.pure, unlinkPool, RpoolGlobal.node, Function.update_of_ne hn,
      Function.update_of_ne hn.symm, unlinkLoop, unlinkNode, RpoolGlobal.modifyNode, RpoolGlobal.freeNode,
      hnodes] at hrun
    rw [← hrun, emptyGlobal]

/-- A type without a pool: nothing happens. -/
theorem destroy_none (hdata : g.dataPool ty = none) (fuel : Nat) :
    rpoolDestroy types fuel ty (g.dataPool ty) g = .ok g := by
  rw [hdata, rpoolDestroy, hdata]
  rfl

theorem newRpool_path {m : RpoolAlloc} {t : RpoolType} (h : newRpool t m = some pool) :
    ∃ b, Path pool.nextLink pool.freeHeadBlock [b] none := by
  obtain ⟨_ | b, mi⟩ := m
  · cases h
  cases mi with
  | none => cases h
  | some base =>
    cases h
    exact ⟨b, rfl, none, by simp [Rpool.nextLink, Rpool.addBlock], rfl⟩

/-- The node of a new pool links back to the root, and nothing links back to it. -/
theorem rpoolCreate_eq (types : Nat → RpoolType) (ty : Nat) {m : RpoolCreateAlloc} (hm : m.Succeeds g)
    (hchain : g.chain = some root) {node : RpoolChainNode} (hroot : g.nodes root = some node) :
    ∃ a n pool l, g.pools a = none ∧ n ≠ root ∧ g.nodes n = none ∧
      Path pool.nextLink pool.freeHeadBlock l none ∧
      rpoolCreate types ty m g = .ok (some a, { g with
        pools := Function.update g.pools a (some pool)
        nodes := Function.update (Function.update g.nodes n (some ⟨a, ty, some root, node.next⟩)) root
          (some { node with next := some n }) }) := by
  obtain ⟨mp, ⟨mb, mi⟩, mn⟩ := m
  obtain ⟨⟨a, rfl, ha⟩, hb, hi, n, rfl, hn⟩ := hm
  obtain ⟨pool, hpool⟩ : ∃ pool, newRpool (types ty) ⟨mb, mi⟩ = some pool := by
    cases mb with
    | none => exact absurd rfl hb
    | some b =>
      cases mi with
      | none => exact absurd rfl hi
      | some base => exact ⟨_, rfl⟩
  obtain ⟨b, hpath⟩ := newRpool_path hpool
  have hne : n ≠ root := by
    rintro rfl
    rw [hroot] at hn
    cases hn
  refine ⟨a, n, pool, [b], ha, hne, hn, hpath, ?_⟩
  simp [rpoolCreate, hpool, hchain, RpoolGlobal.node, RpoolGlobal.modifyNode, hroot, bind, Except.bind, pure,
    Except.pure, Function.update_of_ne hne.symm]

/-! ### The property in these states -/

theorem empty_uninit : rpoolUninitGlobal types 1 (emptyGlobal root raw) =
    .ok ([], ⟨none, fun _ => none, fun _ => none, fun _ => none⟩) := by
  simp [rpoolUninitGlobal, uninitLoop, emptyGlobal, RpoolGlobal.node, RpoolGlobal.freeNode, bind, Except.bind,
    pure, Except.pure]

theorem single_uninit (types : Nat → RpoolType) (raw : RpoolChainNode) (a ty : Nat) (hn : n ≠ root)
    (hl : Path pool.nextLink pool.freeHeadBlock l none) :
    ∃ g', rpoolUninitGlobal types (l.length + 3) (singleGlobal root raw n a ty pool) = .ok ([a], g') ∧
      ∀ b, g'.pools b = none := by
  obtain ⟨pool', hblocks⟩ := destroyBlocks_spec (types ty).itemSize hl
    (by omega : l.length < l.length + 2)
  simp [rpoolUninitGlobal, uninitLoop, singleGlobal, RpoolGlobal.node, RpoolGlobal.modifyNode,
    RpoolGlobal.freeNode, bind, Except.bind, pure, Except.pure, Function.update_of_ne hn,
    Function.update_of_ne hn.symm, rpoolDestroy, hblocks, unlinkPool, unlinkLoop]

theorem AtMostOne.holds (h : AtMostOne g) : ChainHolds types g := by
  rcases h with ⟨root, raw, rfl⟩ | ⟨root, raw, n, a, ty, pool, l, hn, rfl, hl⟩
  · refine ⟨⟨root, none, [], rfl, ?_, rfl, trivial, fun n hn => (by cases hn), fun a ha => (by cases ha)⟩,
      1, [], _, empty_uninit, List.nodup_nil, fun a => ?_, fun a => rfl⟩
    · simp [RpoolGlobal.nextNode, emptyGlobal]
    · simp [emptyGlobal]
  · obtain ⟨g', huninit, hgone⟩ := single_uninit types raw a ty hn hl
    have hnode : (singleGlobal root raw n a ty pool).nodes n = some ⟨a, ty, some root, none⟩ := by
      simp [singleGlobal]
    have hlive : ∀ b, ((singleGlobal root raw n a ty pool).pools b).isSome = true ↔ b = a := by
      intro b
      by_cases hb : b = a
      · simp [singleGlobal, hb]
      · simp [singleGlobal, hb]
    refine ⟨⟨root, some n, [n], rfl, ?_, ⟨rfl, none, ?_, rfl⟩, ⟨?_, trivial⟩, fun n' hn' => ?_,
      fun b hb => ?_⟩, l.length + 3, [a], g', huninit, List.nodup_singleton a, fun b => ?_, hgone⟩
    · simp [RpoolGlobal.nextNode, singleGlobal, Function.update_of_ne hn.symm]
    · rw [RpoolGlobal.nextNode, hnode]
      rfl
    · rw [RpoolGlobal.prevNode, hnode]
      rfl
    · rw [List.mem_singleton.mp hn']
      exact ⟨a, ⟨_, hnode, rfl⟩, (hlive a).mpr rfl⟩
    · rw [(hlive b).mp hb]
      exact ⟨n, List.mem_singleton_self n, ⟨_, hnode, rfl⟩, fun n' hn' _ => List.mem_singleton.mp hn'⟩
    · rw [List.mem_singleton, hlive]

/-! ### Steps -/

theorem empty_step {op : RpoolChainOp} (hstep : RpoolChainStep types (emptyGlobal root raw) op g') :
    AtMostOne g' := by
  cases op with
  | create ty m =>
    obtain ⟨-, hm, r, g₁, hrun, rfl⟩ := hstep
    have hroot : (emptyGlobal root raw).nodes root = some { raw with next := none, prev := none } := by
      simp [emptyGlobal]
    obtain ⟨a, n, pool, l, -, hn, -, hl, heq⟩ := rpoolCreate_eq types ty hm rfl hroot
    rw [hrun] at heq
    cases heq
    refine .inr ⟨root, raw, n, a, ty, pool, l, hn, ?_, hl⟩
    simp only [emptyGlobal, singleGlobal, RpoolGlobal.mk.injEq, true_and, and_true]
    funext c
    by_cases hcn : c = n
    · simp [hcn, Function.update_of_ne hn]
    · by_cases hcr : c = root
      · simp [hcr, Function.update_of_ne hn.symm]
      · simp [Function.update_of_ne hcn, Function.update_of_ne hcr]
  | destroy ty =>
    obtain ⟨fuel, g₁, hrun, rfl⟩ := hstep
    rw [destroy_none rfl] at hrun
    cases hrun
    refine .inl ⟨root, raw, ?_⟩
    simp [emptyGlobal]

theorem single_destroy_step (hn : n ≠ root) (hl : Path pool.nextLink pool.freeHeadBlock l none) {t : Nat}
    (hstep : RpoolChainStep types (singleGlobal root raw n a ty pool) (.destroy t) g') :
    AtMostOne g' := by
  obtain ⟨fuel, g₁, hrun, rfl⟩ := hstep
  by_cases ht : t = ty
  · subst ht
    have hdata : (singleGlobal root raw n a t pool).dataPool t = some a := by simp [singleGlobal]
    rw [hdata] at hrun
    rw [single_destroy hn hrun]
    refine .inl ⟨root, raw, ?_⟩
    simp [emptyGlobal]
  · have hdata : (singleGlobal root raw n a ty pool).dataPool t = none := by simp [singleGlobal, ht]
    rw [destroy_none hdata] at hrun
    cases hrun
    refine .inr ⟨root, raw, n, a, ty, pool, l, hn, ?_, hl⟩
    rw [← hdata, Function.update_eq_self]

/-- The second node of a chain that links back to the root. -/
theorem stale_not_holds {n' : Nat} (hchain : g.chain = some root) (hroot : g.nextNode root = some (some n'))
    (hnext : g.nextNode n' = some (some n)) (hback : g.prevNode n = some (some root)) (hne : n' ≠ root) :
    ¬ ChainHolds types g := by
  rintro ⟨⟨root', p, l, hchain', hp, hpath, hbacked, -⟩, -⟩
  obtain rfl : root = root' := Option.some.inj (hchain.symm.trans hchain')
  obtain rfl : some n' = p := Option.some.inj (hroot.symm.trans hp)
  obtain _ | ⟨c, l⟩ := l
  · cases hpath
  obtain ⟨hc, q, hq, hpath⟩ := hpath
  obtain rfl : n' = c := Option.some.inj hc
  obtain rfl : some n = q := Option.some.inj (hnext.symm.trans hq)
  obtain _ | ⟨d, l⟩ := l
  · cases hpath
  obtain rfl : n = d := Option.some.inj hpath.1
  have hprev := hbacked.2.1
  rw [hback] at hprev
  cases hprev
  exact hne rfl

/-- A second pool: the first node keeps its link to the root. -/
theorem single_create_step (hn : n ≠ root) {t : Nat} {m : RpoolCreateAlloc}
    (hstep : RpoolChainStep types (singleGlobal root raw n a ty pool) (.create t m) g') :
    ¬ ChainHolds types g' := by
  obtain ⟨-, hm, r, g₁, hrun, rfl⟩ := hstep
  have hroot : (singleGlobal root raw n a ty pool).nodes root =
      some { raw with next := some n, prev := none } := by
    simp [singleGlobal, Function.update_of_ne hn.symm]
  obtain ⟨a', n', pool', l', -, hn', hfresh, -, heq⟩ := rpoolCreate_eq types t hm rfl hroot
  have hnn : n ≠ n' := by
    rintro rfl
    simp [singleGlobal] at hfresh
  rw [hrun] at heq
  cases heq
  refine stale_not_holds (?_ : _ = some root) (?_ : _ = some (some n')) (?_ : _ = some (some n)) ?_ ?_
  · rfl
  · simp [RpoolGlobal.nextNode]
  · simp [RpoolGlobal.nextNode, Function.update_of_ne hn']
  · simp [RpoolGlobal.prevNode, singleGlobal, Function.update_of_ne hn, Function.update_of_ne hnn]
  · exact hn'

/-- Exactly when a call keeps the chain in order. -/
theorem chain_step_iff (h : AtMostOne g) {op : RpoolChainOp} (hstep : RpoolChainStep types g op g') :
    (CreatesAlone g op → AtMostOne g') ∧ (ChainHolds types g' ↔ CreatesAlone g op) := by
  rcases h with ⟨root, raw, rfl⟩ | ⟨root, raw, n, a, ty, pool, l, hn, rfl, hl⟩
  · have hnext := empty_step hstep
    exact ⟨fun _ => hnext, iff_of_true hnext.holds fun _ _ _ _ => rfl⟩
  cases op with
  | create t m =>
    have hlonely : ¬ CreatesAlone (singleGlobal root raw n a ty pool) (.create t m) := by
      intro hc
      have := hc t m rfl a
      simp [singleGlobal] at this
    exact ⟨fun hc => absurd hc hlonely, iff_of_false (single_create_step hn hstep) hlonely⟩
  | destroy t =>
    have hnext := single_destroy_step hn hl hstep
    exact ⟨fun _ => hnext, iff_of_true hnext.holds fun _ _ hc => (by cases hc)⟩

/-- After every call of a run with one pool at a time the chain holds, and the next call keeps it so exactly
when it does not create a second pool. -/
theorem chainHolds_run {ops : List RpoolChainOp}
    (hrun : Steps (Guarded CreatesAlone (RpoolChainStep types))
      (rpoolInitGlobal root raw ⟨none, fun _ => none, fun _ => none, fun _ => none⟩) ops g) :
    ChainHolds types g ∧ ∀ op g', RpoolChainStep types g op g' →
      (ChainHolds types g' ↔ CreatesAlone g op) := by
  have hinv := hrun.invariant (I := AtMostOne) (fun h hstep => (chain_step_iff h hstep.2).1 hstep.1)
    (.inl ⟨root, raw, rfl⟩)
  exact ⟨hinv.holds, fun op g' hstep => (chain_step_iff hinv hstep).2⟩

end steps

/-! ### Two types -/

def twoTypes : Nat → RpoolType := fun _ => ⟨8, 1, 1⟩

def firstAlloc : RpoolCreateAlloc := ⟨some 10, ⟨some 0, some 64⟩, some 1⟩

def secondAlloc : RpoolCreateAlloc := ⟨some 11, ⟨some 0, some 64⟩, some 2⟩

def freshGlobal : RpoolGlobal :=
  rpoolInitGlobal 0 ⟨0, 0, none, none⟩ ⟨none, fun _ => none, fun _ => none, fun _ => none⟩

/-- A pool is created and destroyed before the next one; a second one beside that breaks the chain. -/
theorem chainHolds_run_again : ∃ g g',
    Steps (Guarded CreatesAlone (RpoolChainStep twoTypes)) freshGlobal
      [.create 0 firstAlloc, .destroy 0, .create 1 secondAlloc] g ∧ ChainHolds twoTypes g ∧
    RpoolChainStep twoTypes g (.create 0 firstAlloc) g' ∧ ¬ ChainHolds twoTypes g' := by
  obtain ⟨g₁, g₂, g₃, g₄, h₁, h₂, h₃, h₄, pool, hpools, hpool⟩ : ∃ g₁ g₂ g₃ g₄,
      RpoolChainStep twoTypes freshGlobal (.create 0 firstAlloc) g₁ ∧
      RpoolChainStep twoTypes g₁ (.destroy 0) g₂ ∧ RpoolChainStep twoTypes g₂ (.create 1 secondAlloc) g₃ ∧
      RpoolChainStep twoTypes g₃ (.create 0 firstAlloc) g₄ ∧ ∃ pool,
      g₂.pools = Function.update (Function.update (fun _ => none) 10 pool) 10 none ∧
      (g₃.pools 11).isSome = true :=
    ⟨_, _, _, _, ⟨rfl, ⟨⟨10, rfl, rfl⟩, by decide, by decide, 1, rfl, rfl⟩, _, _, rfl, rfl⟩, ⟨4, _, rfl, rfl⟩,
      ⟨rfl, ⟨⟨11, rfl, rfl⟩, by decide, by decide, 2, rfl, rfl⟩, _, _, rfl, rfl⟩,
      ⟨rfl, ⟨⟨10, rfl, rfl⟩, by decide, by decide, 1, rfl, rfl⟩, _, _, rfl, rfl⟩, _, rfl, rfl⟩
  have halone : CreatesAlone g₂ (.create 1 secondAlloc) := by
    intro _ _ _ a
    rw [hpools, Function.update_idem]
    simp [Function.update_apply]
  have hrun : Steps (Guarded CreatesAlone (RpoolChainStep twoTypes)) freshGlobal
      [.create 0 firstAlloc, .destroy 0, .create 1 secondAlloc] g₃ :=
    .cons ⟨fun _ _ _ _ => rfl, h₁⟩ (.cons ⟨fun _ _ hop => (by cases hop), h₂⟩ (.cons ⟨halone, h₃⟩ (.nil _)))
  obtain ⟨hholds, hnext⟩ := chainHolds_run hrun
  refine ⟨g₃, g₄, hrun, hholds, h₄, fun h => ?_⟩
  -- the pool at 11 is still there
  rw [(hnext _ _ h₄).1 h 0 firstAlloc rfl 11] at hpool
  cases hpool

/-- Two pools, of which the older one is destroyed: the root has no next node, and the newer pool is live. -/
theorem chain_cut : ∃ g, Steps (RpoolChainStep twoTypes) freshGlobal
    [.create 0 firstAlloc, .create 1 secondAlloc, .destroy 0] g ∧ ¬ ChainHolds twoTypes g := by
  have hrun : ∃ g, Steps (RpoolChainStep twoTypes) freshGlobal
      [.create 0 firstAlloc, .create 1 secondAlloc, .destroy 0] g ∧ g.chain = some 0 ∧
      g.nextNode 0 = some none ∧ (g.pools 11).isSome = true :=
    ⟨_, .cons ⟨rfl, ⟨⟨10, rfl, rfl⟩, by decide, by decide, 1, rfl, rfl⟩, _, _, rfl, rfl⟩
      (.cons ⟨rfl, ⟨⟨11, rfl, rfl⟩, by decide, by decide, 2, rfl, rfl⟩, _, _, rfl, rfl⟩
        (.cons ⟨4, _, rfl, rfl⟩ (.nil _))), rfl, rfl, rfl⟩
  obtain ⟨g, hsteps, hchain, hnext, hlive⟩ := hrun
  refine ⟨g, hsteps, ?_⟩
  rintro ⟨⟨root, p, l, hchain', hp, hpath, -, -, hall⟩, -⟩
  obtain rfl : root = 0 := Option.some.inj (hchain'.symm.trans hchain)
  obtain rfl : p = none := Option.some.inj (hp.symm.trans hnext)
  obtain ⟨n, hn, -⟩ := hall 11 hlive
  obtain _ | ⟨c, l⟩ := l
  · cases hn
  · cases hpath.1

end Funra
