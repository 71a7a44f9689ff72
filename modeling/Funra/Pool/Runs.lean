import Funra.Lib.Except
import Funra.Lib.System
import Funra.Pool.Blocks

/-!
# Runs of one pool

`rpool_get` and `rpool_free` in any order, with an allocation that may fail at every expansion, and with a
user who writes what he likes into the items he has. `Allocated` says what holds in every state,
`Serves` what a call does.
-/

namespace Funra

open CInt Mem System Linked

variable {size b : Nat} {pool pool' : Rpool} {live chain : List Nat} {free : Nat → List Nat}

namespace Rpool

/-! ### The loops -/

/-- Every block has an item, so that the loops do not run out of rounds. -/
theorem Inv.length_le (h : Inv size pool live chain free) : (chain.length : Int) ≤ pool.capacity := by
  rw [h.capacity]
  have hmem : ∀ c ∈ chain, ∃ blk, pool.blocks c = some blk ∧ 0 < blk.totalCount := by
    intro c hc
    obtain ⟨blk, hblk⟩ := h.exists_block hc
    exact ⟨blk, hblk, (h.ok c blk hblk).total⟩
  clear h
  induction chain with
  | nil => simp
  | cons c l ih =>
    obtain ⟨blk, hblk, htotal⟩ := hmem c List.mem_cons_self
    have := ih fun d hd => hmem d (List.mem_cons_of_mem _ hd)
    rw [sum_cons hblk, List.length_cons]
    omega

theorem nextFree_spec {fuel a : Nat} {l : List Nat} {r : Option Nat} (ha : pool.nextLink a = some r)
    (h : Path pool.nextLink r l none) (hfuel : l.length < fuel) :
    ∃ found, nextFree pool fuel a = .ok found ∧
      (∀ b item, found = some (b, item) → ∃ blk, pool.blocks b = some blk ∧ blk.head = some item) ∧
      (found = none → ∀ c ∈ l, ∀ blk, pool.blocks c = some blk → blk.head = none) := by
  induction l generalizing fuel a r with
  | nil =>
    obtain ⟨fuel, rfl⟩ := Nat.exists_eq_add_of_lt hfuel
    obtain ⟨blk, hblk, hnext⟩ := Option.map_eq_some_iff.mp ha
    obtain rfl : r = none := h
    refine ⟨none, ?_, fun _ _ hc => (by cases hc), fun _ c hc => (by cases hc)⟩
    simp only [nextFree, block_eq hblk, bind, Except.bind, hnext]
    rfl
  | cons c l ih =>
    obtain ⟨fuel, rfl⟩ : ∃ n, fuel = n + 1 := ⟨fuel - 1, by omega⟩
    obtain ⟨rfl, r', hr', hrest⟩ := h
    obtain ⟨blk, hblk, hnext⟩ := Option.map_eq_some_iff.mp ha
    obtain ⟨blk', hblk', -⟩ := Option.map_eq_some_iff.mp hr'
    rw [List.length_cons] at hfuel
    cases hhead : blk'.head with
    | some item =>
      refine ⟨some (c, item), ?_, fun b item' heq => ?_, fun hc => by cases hc⟩
      · simp only [nextFree, block_eq hblk, block_eq hblk', bind, Except.bind, hnext, hhead]
        rfl
      · cases heq
        exact ⟨blk', hblk', hhead⟩
    | none =>
      obtain ⟨found, hrun, hsome, hnone⟩ := ih hr' hrest (by omega : l.length < fuel)
      refine ⟨found, ?_, hsome, fun hf d hd x hx => ?_⟩
      · simp only [nextFree, block_eq hblk, block_eq hblk', bind, Except.bind, hnext, hhead]
        exact hrun
      · rcases List.mem_cons.mp hd with rfl | hd
        · obtain rfl : blk' = x := Option.some.inj (hblk'.symm.trans hx)
          exact hhead
        · exact hnone hf d hd x hx

theorem findBlock_spec {fuel item : Nat} {l : List Nat} {r : Option Nat}
    (h : Path pool.nextLink r l none) (hfuel : l.length < fuel) :
    ∃ found, findBlock size pool item fuel r = .ok found ∧
      (∀ b, found = some b → ∃ blk, pool.blocks b = some blk ∧ blk.holds size item = true) ∧
      (found = none → ∀ c ∈ l, ∀ blk, pool.blocks c = some blk → blk.holds size item = false) := by
  induction l generalizing fuel r with
  | nil =>
    obtain ⟨fuel, rfl⟩ := Nat.exists_eq_add_of_lt hfuel
    obtain rfl : r = none := h
    exact ⟨none, by simp only [findBlock], fun _ hc => (by cases hc), fun _ c hc => (by cases hc)⟩
  | cons c l ih =>
    obtain ⟨fuel, rfl⟩ : ∃ n, fuel = n + 1 := ⟨fuel - 1, by omega⟩
    obtain ⟨rfl, r', hr', hrest⟩ := h
    obtain ⟨blk, hblk, rfl⟩ := Option.map_eq_some_iff.mp hr'
    rw [List.length_cons] at hfuel
    cases hholds : blk.holds size item with
    | true =>
      refine ⟨some c, ?_, fun b heq => ?_, fun hc => by cases hc⟩
      · simp only [findBlock, block_eq hblk, bind, Except.bind, hholds]
        rfl
      · cases heq
        exact ⟨blk, hblk, hholds⟩
    | false =>
      obtain ⟨found, hrun, hsome, hnone⟩ := ih hrest (by omega : l.length < fuel)
      refine ⟨found, ?_, hsome, fun hf d hd x hx => ?_⟩
      · simp only [findBlock, block_eq hblk, bind, Except.bind, hholds]
        exact hrun
      · rcases List.mem_cons.mp hd with rfl | hd
        · obtain rfl : blk = x := Option.some.inj (hblk.symm.trans hx)
          exact hholds
        · exact hnone hf d hd x hx

theorem findFree_spec (h : Inv size pool live chain free) : ∃ found, findFree pool = .ok found ∧
    (∀ b item, found = some (b, item) → ∃ blk, pool.blocks b = some blk ∧ blk.head = some item) ∧
    (found = none → ∀ c blk, pool.blocks c = some blk → blk.head = none) := by
  obtain ⟨f, t, rfl⟩ := List.exists_cons_of_ne_nil h.nonempty
  obtain ⟨hf, r, hr, hrest⟩ := path_cons.mp h.path
  obtain ⟨first, hfirst⟩ := h.exists_block List.mem_cons_self
  simp only [findFree, hf, block_eq hfirst, bind, Except.bind]
  cases hhead : first.head with
  | some item =>
    refine ⟨some (f, item), rfl, fun b item' heq => ?_, fun hc => (by cases hc)⟩
    cases heq
    exact ⟨first, hfirst, hhead⟩
  | none =>
    have hlen := h.length_le
    rw [List.length_cons] at hlen
    obtain ⟨found, hrun, hsome, hnone⟩ :=
      nextFree_spec hr hrest (by omega : t.length < pool.capacity.toNat)
    refine ⟨found, hrun, hsome, fun hfound c blk hblk => ?_⟩
    rcases List.mem_cons.mp (h.chained c blk hblk) with rfl | hc
    · obtain rfl : first = blk := Option.some.inj (hfirst.symm.trans hblk)
      exact hhead
    · exact hnone hfound c hc blk hblk

/-- The block of an item in use is found. -/
theorem findOwner_spec (h : Inv size pool live chain free) {item : Nat} (hitem : item ∈ live) :
    ∃ b blk, findOwner size pool item = .ok (some b) ∧ pool.blocks b = some blk ∧
      blk.holds size item = true := by
  obtain ⟨f, t, rfl⟩ := List.exists_cons_of_ne_nil h.nonempty
  obtain ⟨hf, r, hr, hrest⟩ := path_cons.mp h.path
  obtain ⟨first, hfirst⟩ := h.exists_block List.mem_cons_self
  simp only [findOwner, hf, block_eq hfirst, bind, Except.bind]
  by_cases hholds : first.holds size item = true
  · rw [if_pos hholds]
    exact ⟨f, first, rfl, hfirst, hholds⟩
  have hlen := h.length_le
  rw [List.length_cons] at hlen
  obtain ⟨found, hrun, hsome, hnone⟩ :=
    @findBlock_spec size pool pool.capacity.toNat item t r hrest (by omega)
  have hr' : first.nextBlock = r := by
    rw [nextLink_eq hfirst] at hr
    exact Option.some.inj hr
  rw [if_neg hholds, hr', hrun]
  cases found with
  | some b =>
    obtain ⟨blk, hblk, hholds'⟩ := hsome b rfl
    exact ⟨b, blk, rfl, hblk, hholds'⟩
  | none =>
    obtain ⟨c, x, hx, hxholds⟩ := h.live item hitem
    rcases List.mem_cons.mp (h.chained c x hx) with rfl | hc
    · obtain rfl : first = x := Option.some.inj (hfirst.symm.trans hx)
      exact absurd hxholds hholds
    · rw [hnone rfl c hc x hx] at hxholds
      cases hxholds

end Rpool

/-! ### What a call does -/

section calls

open Rpool

variable {ty : RpoolType} {m : RpoolAlloc} {self : Nat}

theorem newRpool_inv (hsize : 0 < ty.itemSize) (hinit : 0 < ty.sizeInit) (hrun : newRpool ty m = some pool) :
    ∃ b base, Inv ty.itemSize pool [] [b]
      (Function.update (fun _ => []) b (itemAddrs ty.itemSize base ty.sizeInit)) := by
  obtain ⟨mb, mi⟩ := m
  cases mb with
  | none => cases hrun
  | some b =>
    cases mi with
    | none => cases hrun
    | some base =>
      cases hrun
      refine ⟨b, base, ⟨?_, ?_, by simp, fun c x hx => ?_⟩, ?_⟩
      · exact ⟨rfl, none, by simp [nextLink, addBlock], rfl⟩
      · exact ⟨by simp [prevLink, addBlock], trivial⟩
      · by_cases hc : c = b
        · simp [hc]
        · simp [addBlock, Function.update_of_ne hc] at hx
      · have hfilled : Filled ty.itemSize ⟨0, 0, none, fun _ => none, fun _ => none⟩ [] ([] ++ [])
            fun _ => [] := by
          refine ⟨fun _ _ hc => (by cases hc), fun _ _ _ _ _ hc => (by cases hc), rfl, rfl, fun p hp => ?_⟩
          cases hp
        have hapart : ∀ c x, (⟨0, 0, none, fun _ => none, fun _ => none⟩ : Rpool).blocks c = some x →
            x.items + x.totalCount * ty.itemSize ≤ base ∨ base + ty.sizeInit * ty.itemSize ≤ x.items := by
          intro _ _ hc
          cases hc
        have hadded := Filled.addBlock hsize hinit (b := b) rfl hapart hfilled (by simp)
        exact ⟨hadded.ok, hadded.apart, hadded.capacity, hadded.totalFree, hadded.live⟩

/-- A new block for `rpool_get`, in its place. -/
theorem expand_spec (hsize : 0 < ty.itemSize) (hadjust : 0 < ty.sizeAdjust)
    (h : Inv ty.itemSize pool live chain free) (hfresh : m.Fresh ty.itemSize ty.sizeAdjust pool) {b base : Nat}
    (hb : m.block = some b) (hbase : m.items = some base) :
    ∃ pool' blk chain' free', spliceBlock (pool.addBlock ty.itemSize ty.sizeAdjust b base) b = .ok pool' ∧
      Inv ty.itemSize pool' live chain' free' ∧ Keeps pool pool' ∧ pool'.blocks b = some blk ∧
      blk.head = some base := by
  obtain ⟨f, t, rfl⟩ := List.exists_cons_of_ne_nil h.nonempty
  have hnew := hfresh.block b hb
  have hself : (pool.addBlock ty.itemSize ty.sizeAdjust b base).blocks b =
      some ⟨ty.sizeAdjust, ty.sizeAdjust, none, none, some base, base⟩ := Function.update_self ..
  have hkeep : ∀ c ≠ b, (pool.addBlock ty.itemSize ty.sizeAdjust b base).blocks c = pool.blocks c :=
    fun c hc => Function.update_of_ne hc _ _
  obtain ⟨pool', hrun, hre, hchained⟩ := spliceBlock_spec h.toChained (pool.addBlock ty.itemSize ty.sizeAdjust b base) rfl hnew hself hkeep
  obtain ⟨blk, hblk, hcore⟩ := hre.exists_block' hself
  have hfilled : Filled ty.itemSize pool live ([f] ++ t) free := h.toFilled
  have hadded := Filled.addBlock hsize hadjust hnew (hfresh.items base hbase) hfilled fun hmem => by
    obtain ⟨x, hx⟩ := h.exists_block hmem
    rw [hnew] at hx
    cases hx
  refine ⟨pool', blk, f :: b :: t, _, hrun, ⟨hchained, hadded.relinked hre⟩, ?_, hblk,
    (RpoolBlock.core_eq_iff.mp hcore).2.2.1⟩
  refine Keeps.trans (fun c x hx => ⟨x, ?_, rfl, rfl⟩) hre.keeps
  have hc : c ≠ b := by
    rintro rfl
    rw [hnew] at hx
    cases hx
  exact (hkeep c hc).trans hx

theorem rpoolGet_spec (hsize : 0 < ty.itemSize) (hadjust : 0 < ty.sizeAdjust)
    (h : Inv ty.itemSize pool live chain free) (hfresh : m.Fresh ty.itemSize ty.sizeAdjust pool) :
    ∃ r pool' chain' free', rpoolGet ty (some self) m pool = .ok (r, pool') ∧
      Inv ty.itemSize pool' (r.toList ++ live) chain' free' ∧ Keeps pool pool' ∧
      (∀ p, r = some p → p ∉ live) ∧
      (r = none → (∀ c blk, pool.blocks c = some blk → blk.head = none) ∧
        (m.block = none ∨ m.items = none)) := by
  obtain ⟨found, hsearch, hsome, hnone⟩ := findFree_spec h
  simp only [rpoolGet, hsearch, bind, Except.bind, reduceCtorEq, if_false]
  cases found with
  | some found =>
    obtain ⟨b, item⟩ := found
    obtain ⟨blk, hblk, hhead⟩ := hsome b item rfl
    obtain ⟨pool', free', hrun, hnew, hinv, hkeeps⟩ := takeItem_spec hsize h hblk hhead
    refine ⟨some item, pool', _, free', hrun, hinv, hkeeps, fun p hp => ?_, fun hc => (by cases hc)⟩
    cases hp
    exact hnew
  | none =>
    obtain ⟨mb, mi⟩ := m
    have hempty := hnone rfl
    have hsame : Keeps pool pool := fun c x hx => ⟨x, hx, rfl, rfl⟩
    rcases mb with _ | b
    · exact ⟨none, pool, _, free, rfl, h, hsame, fun p hp => (by cases hp), fun _ => ⟨hempty, .inl rfl⟩⟩
    rcases mi with _ | base
    · exact ⟨none, pool, _, free, rfl, h, hsame, fun p hp => (by cases hp), fun _ => ⟨hempty, .inr rfl⟩⟩
    obtain ⟨pool₁, blk, chain₁, free₁, hsplice, hinv₁, hkeeps₁, hblk, hhead⟩ :=
      expand_spec hsize hadjust h hfresh rfl rfl
    obtain ⟨pool', free', hrun, hnew, hinv, hkeeps⟩ := takeItem_spec hsize hinv₁ hblk hhead
    refine ⟨some base, pool', _, free', ?_, hinv, hkeeps₁.trans hkeeps, fun p hp => ?_,
      fun hc => (by cases hc)⟩
    · simp only [takeNew, rpoolExpand, hsplice, block_eq hblk, hhead, bind, Except.bind]
      exact hrun
    · cases hp
      exact hnew

/-- The blocks of the items in use are still there. -/
def KeepsLive (size : Nat) (live : List Nat) (pool pool' : Rpool) : Prop :=
  ∀ p ∈ live, ∀ b blk, pool.blocks b = some blk → blk.holds size p = true →
    ∃ blk', pool'.blocks b = some blk' ∧ blk'.items = blk.items ∧ blk'.totalCount = blk.totalCount

theorem shrink_spec (hsize : 0 < size) (h : Inv size pool live chain free) {blk : RpoolBlock}
    (hb : pool.blocks b = some blk) : ∃ pool' chain', shrink size pool b = .ok pool' ∧
      Inv size pool' live chain' free ∧ KeepsLive size live pool pool' := by
  simp only [shrink, block_eq hb, bind, Except.bind]
  split
  · obtain ⟨hhead, -, hall⟩ := ‹_ ∧ _ ∧ _›
    -- the block is not the first one, so there is one before it
    obtain ⟨l₁, a, l₂, rfl⟩ : ∃ l₁ a l₂, chain = l₁ ++ a :: b :: l₂ := by
      obtain ⟨l, l₂, rfl⟩ := List.append_of_mem (h.chained b blk hb)
      rcases List.eq_nil_or_concat l with rfl | ⟨l₁, a, rfl⟩
      · exact absurd (path_cons.mp h.path).1 hhead
      · exact ⟨l₁, a, l₂, by simp⟩
    obtain ⟨pool', hrun, hinv, hcore⟩ := releaseBlock_spec hsize h hb hall
    refine ⟨pool', l₁ ++ a :: l₂, hrun, hinv, fun p hp c x hx hholds => ?_⟩
    have hc : c ≠ b := by
      rintro rfl
      obtain rfl : blk = x := Option.some.inj (hb.symm.trans hx)
      have hmem : p ∈ live.filter (blk.holds size) := List.mem_filter.mpr ⟨hp, hholds⟩
      rw [(h.ok c blk hb).live_eq_nil hall] at hmem
      cases hmem
    have hmap := hcore c hc
    rw [hx] at hmap
    obtain ⟨y, hy, heq⟩ := Option.map_eq_some_iff.mp hmap
    obtain ⟨ht, -, -, hi⟩ := RpoolBlock.core_eq_iff.mp heq
    exact ⟨y, hy, hi, ht⟩
  · exact ⟨pool, chain, rfl, h, fun _ _ c x hx _ => ⟨x, hx, rfl, rfl⟩⟩

theorem rpoolFree_spec (hsize : 0 < ty.itemSize) (h : Inv ty.itemSize pool live chain free) {item : Nat}
    (hitem : item ∈ live) : ∃ pool' chain' free', rpoolFree ty (some self) item pool = .ok (0, pool') ∧
      Inv ty.itemSize pool' (live.erase item) chain' free' ∧
      KeepsLive ty.itemSize (live.erase item) pool pool' := by
  obtain ⟨b, blk, hsearch, hblk, hholds⟩ := findOwner_spec h hitem
  obtain ⟨pool₁, free₁, hgive, hinv₁, hkeeps₁⟩ := giveBack_spec hsize h hblk hitem hholds
  obtain ⟨blk₁, hblk₁, -⟩ := hkeeps₁ b blk hblk
  obtain ⟨pool', chain', hshrink, hinv, hkeeps⟩ := shrink_spec hsize hinv₁ hblk₁
  refine ⟨pool', chain', free₁, ?_, hinv, fun p hp c x hx hxp => ?_⟩
  · simp only [rpoolFree, hsearch, hgive, hshrink, bind, Except.bind, reduceCtorEq, if_false]
    rfl
  · obtain ⟨y, hy, hi, ht⟩ := hkeeps₁ c x hx
    obtain ⟨z, hz, hi', ht'⟩ := hkeeps p hp c y hy (by rw [RpoolBlock.holds, hi, ht]; exact hxp)
    exact ⟨z, hz, hi'.trans hi, ht'.trans ht⟩

end calls

/-! ### The property -/

/-- The counters of the pool and of its blocks are right. -/
def Rpool.Consistent (pool : Rpool) : Prop :=
  ∃ chain, Path pool.nextLink pool.freeHeadBlock chain none ∧
    pool.capacity = pool.sum (fun blk => blk.totalCount) chain ∧
    pool.totalFree = pool.sum RpoolBlock.freeCount chain ∧
    ∀ b ∈ chain, ∃ blk free, pool.blocks b = some blk ∧ Path pool.items blk.head free none ∧
      blk.freeCount = free.length

/-- A pool and the items its user has. -/
structure RpoolUse where
  pool : Rpool
  live : List Nat

inductive RpoolOp
  | get (m : RpoolAlloc)
  | free (item : Nat)
  | write (item : Nat) (word : Option Nat)
  deriving DecidableEq, Repr

namespace RpoolOp

/-- Memory comes from where there is none in use, and the user frees and writes what he has. -/
def Enabled (ty : RpoolType) (s : RpoolUse) : RpoolOp → Prop
  | .get m => m.Fresh ty.itemSize ty.sizeAdjust s.pool
  | .free item => item ∈ s.live
  | .write item _ => item ∈ s.live

/-- The item handed out, and the state behind the call. -/
def exec (ty : RpoolType) (self : Nat) (s : RpoolUse) : RpoolOp → Except Fault (Option Nat × RpoolUse)
  | .get m => (rpoolGet ty (some self) m s.pool).map fun (r, pool) => (r, ⟨pool, r.toList ++ s.live⟩)
  | .free item => (rpoolFree ty (some self) item s.pool).map fun (_, pool) =>
      (none, ⟨pool, s.live.erase item⟩)
  | .write item word => (s.pool.setLink item word).map fun pool => (none, ⟨pool, s.live⟩)

end RpoolOp

def RpoolStep (ty : RpoolType) (self : Nat) (s : RpoolUse) (op : RpoolOp) (s' : RpoolUse) : Prop :=
  op.Enabled ty s ∧ ∃ r, op.exec ty self s = .ok (r, s')

/-- What holds in every state. -/
structure Allocated (size : Nat) (s : RpoolUse) : Prop where
  counters : s.pool.Consistent
  distinct : s.live.Nodup
  inBlock : ∀ p ∈ s.live, ∃ b blk, s.pool.blocks b = some blk ∧ p ∈ blk.addrs size

/-- What a call does: an item handed out is a new one, none is handed out only for lack of memory, and the
blocks of the items that stay in use stay too. -/
structure Serves (size : Nat) (s : RpoolUse) (op : RpoolOp) (r : Option Nat) (s' : RpoolUse) : Prop where
  fresh : ∀ p, r = some p → p ∉ s.live
  full : ∀ m, op = .get m → r = none → (∀ b blk, s.pool.blocks b = some blk → blk.head = none) ∧
    (m.block = none ∨ m.items = none)
  stays : ∀ p ∈ s.live, op ≠ .free p → ∀ b blk, s.pool.blocks b = some blk →
    p ∈ blk.addrs size → ∃ blk', s'.pool.blocks b = some blk' ∧ p ∈ blk'.addrs size

/-! ### Runs -/

section runs

variable {ty : RpoolType} {self : Nat} {s s' : RpoolUse}

theorem allocated_of_inv (hsize : 0 < size) (h : s.pool.Inv size s.live chain free) :
    Allocated size s := by
  refine ⟨⟨chain, h.path, h.capacity, h.totalFree, fun b hb => ?_⟩, ?_, fun p hp => ?_⟩
  · obtain ⟨blk, hblk⟩ := h.exists_block hb
    have hok := h.ok b blk hblk
    exact ⟨blk, free b, hblk, hok.path, hok.count⟩
  · rw [List.nodup_iff_count_le_one]
    intro p
    by_cases hp : p ∈ s.live
    · obtain ⟨b, blk, hblk, hholds⟩ := h.live p hp
      have hnodup := (List.nodup_append.mp ((h.ok b blk hblk).nodup hsize)).2.1
      rw [List.nodup_iff_count_le_one] at hnodup
      have hcount := hnodup p
      rwa [List.count_filter hholds] at hcount
    · rw [List.count_eq_zero_of_not_mem hp]
      exact Nat.zero_le 1
  · obtain ⟨b, blk, hblk, hholds⟩ := h.live p hp
    exact ⟨b, blk, hblk, (h.ok b blk hblk).live_mem_addrs hp hholds⟩

/-- What a user writes into an item in use is none of the pool's business. -/
theorem setLink_inv (hsize : 0 < size) (h : s.pool.Inv size s.live chain free) {item : Nat}
    (hitem : item ∈ s.live) (word : Option Nat) : ∃ pool', s.pool.setLink item word = .ok pool' ∧
      pool'.Inv size s.live chain free ∧ pool'.blocks = s.pool.blocks := by
  obtain ⟨b, blk, hblk, hholds⟩ := h.live item hitem
  have hmem := (h.ok b blk hblk).live_mem_addrs hitem hholds
  obtain ⟨old, hold⟩ := Option.isSome_iff_exists.mp ((h.ok b blk hblk).present item hmem)
  obtain ⟨pool', hpool'⟩ : ∃ x : Rpool, x = { s.pool with
    items := Function.update s.pool.items item (some word) } := ⟨_, rfl⟩
  have hother : ∀ {q}, q ≠ item → pool'.items q = s.pool.items q := by
    intro q hq
    rw [hpool']
    exact Function.update_of_ne hq _ _
  have hblocks : pool'.blocks = s.pool.blocks := by rw [hpool']
  refine ⟨pool', ?_, ⟨⟨?_, ?_, h.nonempty, ?_⟩, fun c x hx => ?_, ?_, ?_, ?_, ?_⟩, hblocks⟩
  · simp only [Rpool.setLink, hold, hpool']
  · rw [hpool']
    exact h.path
  · rw [hpool']
    exact h.backed
  · rw [hblocks]
    exact h.chained
  · rw [hblocks] at hx
    have hok := h.ok c x hx
    refine ⟨hok.total, hok.path.congr fun q hq => hother ?_, hok.count, hok.split, fun q hq => ?_⟩
    · rintro rfl
      exact hok.not_live hsize hq hitem
    · by_cases hq' : q = item
      · rw [hq', hpool']
        simp
      · rw [hother hq']
        exact hok.present q hq
  · rw [hblocks]
    exact h.apart
  · rw [hpool']
    exact h.capacity
  · rw [hpool']
    exact h.totalFree
  · rw [hblocks]
    exact h.live

/-- A call returns, keeps the invariant and serves its user. -/
theorem exec_spec (hsize : 0 < ty.itemSize) (hadjust : 0 < ty.sizeAdjust)
    (h : s.pool.Inv ty.itemSize s.live chain free) {op : RpoolOp} (henabled : op.Enabled ty s) :
    ∃ r s' chain' free', op.exec ty self s = .ok (r, s') ∧
      s'.pool.Inv ty.itemSize s'.live chain' free' ∧ Serves ty.itemSize s op r s' := by
  have haddrs : ∀ {p : Nat} {blk blk' : RpoolBlock}, blk'.items = blk.items →
      blk'.totalCount = blk.totalCount → p ∈ blk.addrs ty.itemSize → p ∈ blk'.addrs ty.itemSize := by
    intro p blk blk' hi ht hp
    rwa [RpoolBlock.addrs, hi, ht]
  cases op with
  | get m =>
    obtain ⟨r, pool', chain', free', hrun, hinv, hkeeps, hnew, hfull⟩ :=
      rpoolGet_spec hsize hadjust h henabled
    refine ⟨r, ⟨pool', r.toList ++ s.live⟩, chain', free', ?_, hinv, hnew, fun m' hm hr => ?_,
      fun p hp _ b blk hb hmem => ?_⟩
    · rw [RpoolOp.exec, hrun]
      rfl
    · cases hm
      exact hfull hr
    · obtain ⟨blk', hb', hi, ht⟩ := hkeeps b blk hb
      exact ⟨blk', hb', haddrs hi ht hmem⟩
  | free item =>
    obtain ⟨pool', chain', free', hrun, hinv, hkeeps⟩ := rpoolFree_spec hsize h henabled
    refine ⟨none, ⟨pool', s.live.erase item⟩, chain', free', ?_, hinv, fun p hp => (by cases hp),
      fun m' hm => (by cases hm), fun p hp hne b blk hb hmem => ?_⟩
    · rw [RpoolOp.exec, hrun]
      rfl
    · have hp' : p ∈ s.live.erase item := (List.mem_erase_of_ne fun heq => hne (by rw [heq])).mpr hp
      obtain ⟨blk', hb', hi, ht⟩ := hkeeps p hp' b blk hb (RpoolBlock.holds_of_mem hsize hmem)
      exact ⟨blk', hb', haddrs hi ht hmem⟩
  | write item word =>
    obtain ⟨pool', hrun, hinv, hblocks⟩ := setLink_inv hsize h henabled word
    refine ⟨none, ⟨pool', s.live⟩, chain, free, ?_, hinv, fun p hp => (by cases hp),
      fun m' hm => (by cases hm), fun p _ _ b blk hb hmem => ?_⟩
    · rw [RpoolOp.exec, hrun]
      rfl
    · exact ⟨blk, by rw [hblocks]; exact hb, hmem⟩

/-- In every state of every run the pool is what it should be, and the next call returns and does what it
should. -/
theorem allocator_run (hsize : 0 < ty.itemSize) (hinit : 1 ≤ ty.sizeInit) (hadjust : 1 ≤ ty.sizeAdjust)
    {m : RpoolAlloc} {pool : Rpool} (hcreate : newRpool ty m = some pool) {ops : List RpoolOp}
    (hrun : Steps (RpoolStep ty self) ⟨pool, []⟩ ops s) : Allocated ty.itemSize s ∧
      ∀ op : RpoolOp, op.Enabled ty s →
        ∃ r s', op.exec ty self s = .ok (r, s') ∧ Serves ty.itemSize s op r s' := by
  obtain ⟨b, base, hinv₀⟩ := newRpool_inv hsize hinit hcreate
  obtain ⟨chain, free, hinv⟩ := hrun.invariant
    (I := fun s => ∃ chain free, s.pool.Inv ty.itemSize s.live chain free)
    (fun {s op s'} hinv hstep => by
      obtain ⟨chain, free, hinv⟩ := hinv
      obtain ⟨henabled, r, hexec⟩ := hstep
      obtain ⟨r', s'', chain', free', hexec', hinv', -⟩ := exec_spec hsize hadjust hinv henabled
      rw [hexec] at hexec'
      cases hexec'
      exact ⟨chain', free', hinv'⟩)
    ⟨_, _, hinv₀⟩
  refine ⟨allocated_of_inv hsize hinv, fun op henabled => ?_⟩
  obtain ⟨r, s', -, -, hexec, -, hserves⟩ := exec_spec hsize hadjust hinv henabled
  exact ⟨r, s', hexec, hserves⟩

end runs

/-- A pool of two items gets a second block for the third one, and gives it back when all are free again. -/
theorem allocator_run_expand :
    let ty : RpoolType := ⟨8, 2, 1⟩
    let ops : List RpoolOp :=
      [.get ⟨none, none⟩, .get ⟨none, none⟩, .get ⟨some 1, some 128⟩, .free 64, .free 72, .free 128]
    ∃ pool s, newRpool ty ⟨some 0, some 64⟩ = some pool ∧ Steps (RpoolStep ty 1) ⟨pool, []⟩ ops s ∧
      s.live = [] ∧ s.pool.capacity = 2 ∧ Allocated 8 s ∧ ∀ op : RpoolOp, op.Enabled ty s →
        ∃ r s', op.exec ty 1 s = .ok (r, s') ∧ Serves 8 s op r s' := by
  intro ty ops
  have hnone (s : RpoolUse) : (RpoolOp.get ⟨none, none⟩).Enabled ty s :=
    ⟨fun _ h => (by cases h), fun _ h => (by cases h)⟩
  -- the first block, with fewer free items after each call
  obtain ⟨block, hblock⟩ : ∃ block : Option Nat → Int → RpoolBlock,
    block = fun head n => ⟨2, n, none, none, head, 64⟩ := ⟨_, rfl⟩
  obtain ⟨s₂, hs₂⟩ : ∃ s : RpoolUse, s = ⟨⟨2, 0, some 0, Function.update (Function.update (Function.update
    (fun _ => none) 0 (some (block (some 64) 2))) 0 (some (block (some 72) 1))) 0 (some (block none 0)),
    linkItems 8 64 2 fun _ => none⟩, [72, 64]⟩ := ⟨_, rfl⟩
  obtain ⟨pool, s₁, hcreate, hexec₁, hexec₂⟩ : ∃ pool s₁, newRpool ty ⟨some 0, some 64⟩ = some pool ∧
      (RpoolOp.get ⟨none, none⟩).exec ty 1 ⟨pool, []⟩ = .ok (some 64, s₁) ∧
      (RpoolOp.get ⟨none, none⟩).exec ty 1 s₁ = .ok (some 72, s₂) := by
    rw [hs₂, hblock]
    exact ⟨_, _, rfl, rfl, rfl⟩
  obtain ⟨s₃, hexec₃, hlive₃⟩ : ∃ s, (RpoolOp.get ⟨some 1, some 128⟩).exec ty 1 s₂ = .ok (some 128, s) ∧
      s.live = [128, 72, 64] := by
    rw [hs₂, hblock]
    exact ⟨_, rfl, rfl⟩
  have hs₃ := hexec₃
  rw [hs₂, hblock] at hs₃
  obtain ⟨s₄, hexec₄, hlive₄⟩ : ∃ s, (RpoolOp.free 64).exec ty 1 s₃ = .ok (none, s) ∧ s.live = [128, 72] := by
    cases hs₃
    exact ⟨_, rfl, rfl⟩
  obtain ⟨s₅, hexec₅, hlive₅⟩ : ∃ s, (RpoolOp.free 72).exec ty 1 s₄ = .ok (none, s) ∧ s.live = [128] := by
    cases hs₃
    cases hexec₄
    exact ⟨_, rfl, rfl⟩
  -- the second block has no item in use any more
  have hlast : ((RpoolOp.free 128).exec ⟨8, 2, 1⟩ 1 s₅).map (fun r => (r.1, r.2.live, r.2.pool.capacity)) =
      .ok (none, [], 2) := by
    cases hs₃
    cases hexec₄
    cases hexec₅
    decide +kernel
  obtain ⟨⟨r, s₆⟩, hexec₆, hfacts⟩ := Except.of_map_ok hlast
  obtain ⟨hlive₆, hcap⟩ := Prod.mk.inj (Prod.mk.inj hfacts).2
  have hfresh : (RpoolOp.get ⟨some 1, some 128⟩).Enabled ty s₂ := by
    rw [hs₂]
    refine ⟨fun b hb => ?_, fun base hbase c x hx => ?_⟩
    · cases hb
      rfl
    · cases hbase
      by_cases hc : c = 0
      · subst hc
        cases hx
        exact .inl (by rw [hblock]; decide)
      · simp [Function.update_of_ne hc] at hx
  have hrun : Steps (RpoolStep ty 1) ⟨pool, []⟩ ops s₆ :=
    .cons ⟨hnone _, _, hexec₁⟩ (.cons ⟨hnone _, _, hexec₂⟩ (.cons ⟨hfresh, _, hexec₃⟩
      (.cons ⟨by simp [RpoolOp.Enabled, hlive₃], _, hexec₄⟩ (.cons ⟨by simp [RpoolOp.Enabled, hlive₄], _, hexec₅⟩
        (.cons ⟨by simp [RpoolOp.Enabled, hlive₅], _, hexec₆⟩ (.nil _))))))
  exact ⟨pool, s₆, hcreate, hrun, hlive₆, hcap, allocator_run (by decide) (by decide) (by decide) hcreate hrun⟩

end Funra
