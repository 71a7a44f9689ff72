import Funra.Lib.Linked
import Funra.Pool.Basic
import Mathlib.Algebra.BigOperators.Group.List.Basic

/-!
# The invariant of a pool

`Rpool.Inv` relates a pool to the items in use (`live`), to its list of blocks (`chain`) and to the free
list of each block. The items of a block are the free ones and the live ones that lie in it
(`BlockOk.split`), so that no item is both. Blocks lie apart, so that the address of an item says which
block it is from.

The lemmas here say what the four changes of a pool keep: an item is taken, an item comes back, a block is
added, a block is released.
-/

namespace Funra

open Mem Linked

variable {size base num a b p : Nat}

/-! ### Addresses of items -/

theorem mem_itemAddrs : a ∈ itemAddrs size base num ↔ ∃ i < num, a = base + i * size := by
  induction num generalizing base with
  | zero => simp [itemAddrs]
  | succ num ih =>
    rw [itemAddrs, List.mem_cons, ih]
    constructor
    · rintro (rfl | ⟨i, hi, rfl⟩)
      · exact ⟨0, Nat.succ_pos _, by simp⟩
      · exact ⟨i + 1, by omega, by ring⟩
    · rintro ⟨_ | i, hi, rfl⟩
      · exact .inl (by simp)
      · exact .inr ⟨i, by omega, by ring⟩

@[simp] theorem length_itemAddrs : (itemAddrs size base num).length = num := by
  induction num generalizing base with
  | zero => rfl
  | succ num ih => rw [itemAddrs, List.length_cons, ih]

theorem itemAddrs_range (hsize : 0 < size) (h : a ∈ itemAddrs size base num) :
    base ≤ a ∧ a < base + num * size := by
  obtain ⟨i, hi, rfl⟩ := mem_itemAddrs.mp h
  have hmul : i * size < num * size := Nat.mul_lt_mul_of_pos_right hi hsize
  omega

theorem nodup_itemAddrs (hsize : 0 < size) : (itemAddrs size base num).Nodup := by
  induction num generalizing base with
  | zero => exact List.nodup_nil
  | succ num ih =>
    refine List.nodup_cons.mpr ⟨fun hmem => ?_, ih⟩
    have := itemAddrs_range hsize hmem
    omega

variable {mem : Nat → Option (Option Nat)}

/-- The loop writes the items only. -/
theorem linkItems_other (h : a ∉ itemAddrs size base num) : linkItems size base num mem a = mem a := by
  induction num generalizing base mem with
  | zero => rfl
  | succ num ih =>
    rw [itemAddrs, List.mem_cons, not_or] at h
    cases num with
    | zero => exact Function.update_of_ne h.1 _ _
    | succ num =>
      rw [linkItems, ih h.2]
      exact Function.update_of_ne h.1 _ _

theorem linkItems_path (hsize : 0 < size) (hnum : 0 < num) :
    Path (linkItems size base num mem) (some base) (itemAddrs size base num) none := by
  induction num generalizing base mem with
  | zero => omega
  | succ num ih =>
    cases num with
    | zero => exact ⟨rfl, none, Function.update_self .., rfl⟩
    | succ num =>
      refine ⟨rfl, some (base + size), ?_, ih (Nat.succ_pos _)⟩
      rw [linkItems, linkItems_other]
      · exact Function.update_self ..
      · intro hmem
        have := itemAddrs_range hsize hmem
        omega

/-! ### The invariant -/

namespace RpoolBlock

/-- The items of two blocks lie apart. -/
def Apart (size : Nat) (blk blk' : RpoolBlock) : Prop :=
  blk.items + blk.totalCount * size ≤ blk'.items ∨ blk'.items + blk'.totalCount * size ≤ blk.items

/-- A block without its links to other blocks. -/
def core (blk : RpoolBlock) : RpoolBlock := { blk with nextBlock := none, prevBlock := none }

variable {blk blk' : RpoolBlock}

theorem core_eq_iff : blk'.core = blk.core ↔ blk'.totalCount = blk.totalCount ∧
    blk'.freeCount = blk.freeCount ∧ blk'.head = blk.head ∧ blk'.items = blk.items := by
  simp [core]

theorem holds_iff :
    blk.holds size a = true ↔ blk.items ≤ a ∧ a < blk.items + blk.totalCount * size := by
  simp [holds]

theorem Apart.symm (h : Apart size blk blk') : Apart size blk' blk := Or.symm h

theorem Apart.not_holds (h : Apart size blk blk') (ha : blk.holds size a = true) :
    blk'.holds size a = false := by
  rw [holds_iff] at ha
  rw [Bool.eq_false_iff, ne_eq, holds_iff]
  rcases h with h | h <;> omega

theorem holds_of_mem (hsize : 0 < size) (h : a ∈ blk.addrs size) : blk.holds size a = true :=
  holds_iff.mpr (itemAddrs_range hsize h)

end RpoolBlock

/-- A block, its free items and the items in use that lie in it. -/
structure BlockOk (size : Nat) (items : Nat → Option (Option Nat)) (live : List Nat) (blk : RpoolBlock)
    (free : List Nat) : Prop where
  total : 0 < blk.totalCount
  path : Path items blk.head free none
  count : blk.freeCount = free.length
  split : (blk.addrs size).Perm (free ++ live.filter (blk.holds size))
  present : ∀ p ∈ blk.addrs size, (items p).isSome = true

namespace Rpool

def nextLink (pool : Rpool) (b : Nat) : Option (Option Nat) := (pool.blocks b).map RpoolBlock.nextBlock

def prevLink (pool : Rpool) (b : Nat) : Option (Option Nat) := (pool.blocks b).map RpoolBlock.prevBlock

/-- The sum of a counter over blocks. -/
def sum (pool : Rpool) (count : RpoolBlock → Int) (chain : List Nat) : Int :=
  (chain.map fun b => ((pool.blocks b).map count).getD 0).sum

/-- The blocks in memory are those of the list. -/
structure Chained (pool : Rpool) (chain : List Nat) : Prop where
  path : Path pool.nextLink pool.freeHeadBlock chain none
  backed : Backed pool.prevLink none chain
  nonempty : chain ≠ []
  chained : ∀ b blk, pool.blocks b = some blk → b ∈ chain

/-- What the blocks hold, and the counters of the pool. -/
structure Filled (size : Nat) (pool : Rpool) (live chain : List Nat) (free : Nat → List Nat) : Prop where
  ok : ∀ b blk, pool.blocks b = some blk → BlockOk size pool.items live blk (free b)
  apart : ∀ b b' blk blk', b ≠ b' → pool.blocks b = some blk → pool.blocks b' = some blk' →
    blk.Apart size blk'
  capacity : pool.capacity = pool.sum (fun blk => blk.totalCount) chain
  totalFree : pool.totalFree = pool.sum RpoolBlock.freeCount chain
  live : ∀ p ∈ live, ∃ b blk, pool.blocks b = some blk ∧ blk.holds size p = true

structure Inv (size : Nat) (pool : Rpool) (live chain : List Nat) (free : Nat → List Nat) : Prop extends
  Chained pool chain, Filled size pool live chain free

/-! ### Sums -/

section sums

variable {pool pool' : Rpool} {count : RpoolBlock → Int} {chain l₁ l₂ : List Nat} {blk blk' : RpoolBlock}

@[simp] theorem sum_nil : pool.sum count [] = 0 := rfl

theorem sum_cons (hb : pool.blocks b = some blk) :
    pool.sum count (b :: chain) = count blk + pool.sum count chain := by
  simp [sum, hb]

theorem sum_append : pool.sum count (l₁ ++ l₂) = pool.sum count l₁ + pool.sum count l₂ := by
  simp [sum]

theorem sum_congr (h : ∀ b ∈ chain,
    (pool'.blocks b).map count = (pool.blocks b).map count) :
    pool'.sum count chain = pool.sum count chain := by
  unfold sum
  congr 1
  apply List.map_congr_left
  intro b hb
  rw [h b hb]

/-- One block of the list has changed. -/
theorem sum_update (hnodup : chain.Nodup) (hmem : b ∈ chain) (hb : pool.blocks b = some blk)
    (hblocks : pool'.blocks = Function.update pool.blocks b (some blk')) :
    pool'.sum count chain = pool.sum count chain + (count blk' - count blk) := by
  obtain ⟨l₁, l₂, rfl⟩ := List.append_of_mem hmem
  have hkeep : ∀ c ∈ l₁ ++ l₂, (pool'.blocks c).map count = (pool.blocks c).map count := by
    intro c hc
    have hne : c ≠ b := by
      rintro rfl
      rw [List.nodup_middle, List.nodup_cons] at hnodup
      exact hnodup.1 hc
    rw [hblocks, Function.update_of_ne hne]
  have hb' : pool'.blocks b = some blk' := by rw [hblocks, Function.update_self]
  rw [sum_append, sum_append, sum_cons hb, sum_cons hb',
    sum_congr fun c hc => hkeep c (List.mem_append_left _ hc),
    sum_congr fun c hc => hkeep c (List.mem_append_right _ hc)]
  omega

end sums

end Rpool

/-! ### Blocks under a change -/

section block

variable {items items' : Nat → Option (Option Nat)} {live live' free : List Nat} {blk : RpoolBlock}

theorem BlockOk.mem_addrs (h : BlockOk size items live blk free) (ha : a ∈ free) : a ∈ blk.addrs size :=
  h.split.mem_iff.mpr (List.mem_append_left _ ha)

theorem BlockOk.live_mem_addrs (h : BlockOk size items live blk free) (hp : p ∈ live)
    (hb : blk.holds size p = true) : p ∈ blk.addrs size :=
  h.split.mem_iff.mpr (List.mem_append_right _ (List.mem_filter.mpr ⟨hp, hb⟩))

theorem BlockOk.nodup (hsize : 0 < size) (h : BlockOk size items live blk free) :
    (free ++ live.filter (blk.holds size)).Nodup :=
  h.split.nodup_iff.mp (nodup_itemAddrs hsize)

/-- A free item is not in use. -/
theorem BlockOk.not_live (hsize : 0 < size) (h : BlockOk size items live blk free) (ha : a ∈ free) :
    a ∉ live := by
  intro hlive
  have hholds := RpoolBlock.holds_of_mem hsize (h.mem_addrs ha)
  exact List.disjoint_of_nodup_append (h.nodup hsize) ha (List.mem_filter.mpr ⟨hlive, hholds⟩)

/-- A change that leaves alone the items of the block and those in use that lie in it. -/
theorem BlockOk.frame (h : BlockOk size items live blk free)
    (hitems : ∀ p ∈ blk.addrs size, items' p = items p)
    (hlive : (live.filter (blk.holds size)).Perm (live'.filter (blk.holds size))) :
    BlockOk size items' live' blk free := by
  refine ⟨h.total, h.path.congr fun p hp => hitems p (h.mem_addrs hp), h.count,
    h.split.trans (hlive.append_left _), fun p hp => ?_⟩
  rw [hitems p hp]
  exact h.present p hp

/-- The counters of a block without an item in use agree. -/
theorem BlockOk.live_eq_nil (h : BlockOk size items live blk free)
    (hall : (blk.totalCount : Int) = blk.freeCount) : live.filter (blk.holds size) = [] := by
  have hlen := h.split.length_eq
  rw [RpoolBlock.addrs, length_itemAddrs, List.length_append] at hlen
  have hcount := h.count
  apply List.eq_nil_of_length_eq_zero
  omega

theorem BlockOk.of_core {blk' : RpoolBlock} (h : BlockOk size items live blk free)
    (hcore : blk'.core = blk.core) : BlockOk size items live blk' free := by
  obtain ⟨htotal, hcount, hhead, hitems⟩ := RpoolBlock.core_eq_iff.mp hcore
  have hholds : blk'.holds size = blk.holds size := by
    unfold RpoolBlock.holds
    rw [hitems, htotal]
  have haddrs : blk'.addrs size = blk.addrs size := by rw [RpoolBlock.addrs, hitems, htotal, RpoolBlock.addrs]
  refine ⟨htotal ▸ h.total, ?_, ?_, ?_, ?_⟩
  · rw [hhead]
    exact h.path
  · rw [hcount]
    exact h.count
  · rw [haddrs, hholds]
    exact h.split
  · rw [haddrs]
    exact h.present

theorem BlockOk.head_eq (h : BlockOk size items live blk free) : blk.head = free.head? := h.path.head

end block

/-! ### An item is taken, an item comes back -/

namespace Rpool

variable {pool pool' : Rpool} {live live' chain : List Nat} {free : Nat → List Nat} {blk blk' : RpoolBlock}

theorem block_eq (hb : pool.blocks b = some blk) : pool.block (some b) = .ok blk := by
  simp only [block, hb]

theorem modifyBlock_eq (hb : pool.blocks b = some blk) (f : RpoolBlock → RpoolBlock) :
    pool.modifyBlock f (some b) =
      .ok { pool with blocks := Function.update pool.blocks b (some (f blk)) } := by
  simp only [modifyBlock, hb]

theorem Chained.exists_block (h : Chained pool chain) (hb : b ∈ chain) :
    ∃ blk, pool.blocks b = some blk := by
  have hsome := h.path.isSome hb
  rw [nextLink, Option.isSome_map] at hsome
  exact Option.isSome_iff_exists.mp hsome

/-- The counters and the free list of one block change, and with them which items are in use. -/
theorem Inv.recount (h : Inv size pool live chain free) (hb : pool.blocks b = some blk)
    (hblocks : pool'.blocks = Function.update pool.blocks b (some blk'))
    (hnext : blk'.nextBlock = blk.nextBlock) (hprev : blk'.prevBlock = blk.prevBlock)
    (hitems : blk'.items = blk.items) (htotal : blk'.totalCount = blk.totalCount)
    (hhead : pool'.freeHeadBlock = pool.freeHeadBlock) (hcap : pool'.capacity = pool.capacity)
    (hfree : pool'.totalFree = pool.totalFree + (blk'.freeCount - blk.freeCount)) {l : List Nat}
    (hok : BlockOk size pool'.items live' blk' l)
    (hothers : ∀ c x, c ≠ b → pool.blocks c = some x → BlockOk size pool'.items live' x (free c))
    (hlive : ∀ p ∈ live', p ∈ live ∨ blk.holds size p = true) :
    Inv size pool' live' chain (Function.update free b l) := by
  have hb' : pool'.blocks b = some blk' := by rw [hblocks, Function.update_self]
  have hne : ∀ {c}, c ≠ b → pool'.blocks c = pool.blocks c := by
    intro c hc
    rw [hblocks, Function.update_of_ne hc]
  have hlinks : pool'.nextLink = pool.nextLink ∧ pool'.prevLink = pool.prevLink := by
    constructor <;> funext c <;> by_cases hc : c = b
    · subst hc; simp [nextLink, hb, hb', hnext]
    · simp [nextLink, hne hc]
    · subst hc; simp [prevLink, hb, hb', hprev]
    · simp [prevLink, hne hc]
  -- a block of the new pool has the range of the one that was there
  have hshape : ∀ c x, pool'.blocks c = some x → ∃ y, pool.blocks c = some y ∧ y.items = x.items ∧
      y.totalCount = x.totalCount := by
    intro c x hx
    by_cases hc : c = b
    · subst hc
      obtain rfl : blk' = x := Option.some.inj (hb'.symm.trans hx)
      exact ⟨blk, hb, hitems.symm, htotal.symm⟩
    · exact ⟨x, (hne hc).symm.trans hx, rfl, rfl⟩
  have hnodup := h.path.nodup
  have hmem := h.chained b blk hb
  refine ⟨⟨?_, ?_, h.nonempty, fun c x hx => ?_⟩, fun c x hx => ?_, fun c c' x x' hcc hx hx' => ?_, ?_, ?_,
    fun p hp => ?_⟩
  · rw [hlinks.1, hhead]
    exact h.path
  · rw [hlinks.2]
    exact h.backed
  · obtain ⟨y, hy, -⟩ := hshape c x hx
    exact h.chained c y hy
  · by_cases hc : c = b
    · subst hc
      obtain rfl : blk' = x := Option.some.inj (hb'.symm.trans hx)
      rw [Function.update_self]
      exact hok
    · rw [Function.update_of_ne hc]
      exact hothers c x hc ((hne hc).symm.trans hx)
  · obtain ⟨y, hy, hyi, hyt⟩ := hshape c x hx
    obtain ⟨y', hy', hyi', hyt'⟩ := hshape c' x' hx'
    have := h.apart c c' y y' hcc hy hy'
    rwa [RpoolBlock.Apart, hyi, hyt, hyi', hyt'] at this
  · rw [hcap, h.capacity, sum_update hnodup hmem hb hblocks, htotal]
    omega
  · rw [hfree, h.totalFree, sum_update hnodup hmem hb hblocks]
  · have hold : ∃ c y, pool.blocks c = some y ∧ y.holds size p = true := by
      rcases hlive p hp with hp | hp
      · exact h.live p hp
      · exact ⟨b, blk, hb, hp⟩
    obtain ⟨c, y, hy, hholds⟩ := hold
    by_cases hc : c = b
    · subst hc
      obtain rfl : blk = y := Option.some.inj (hb.symm.trans hy)
      refine ⟨c, blk', hb', ?_⟩
      rw [RpoolBlock.holds_iff] at hholds ⊢
      rwa [hitems, htotal]
    · exact ⟨c, y, (hne hc).trans hy, hholds⟩

/-- Every block is still there, with its items. -/
def Keeps (pool pool' : Rpool) : Prop :=
  ∀ b blk, pool.blocks b = some blk →
    ∃ blk', pool'.blocks b = some blk' ∧ blk'.items = blk.items ∧ blk'.totalCount = blk.totalCount

theorem keeps_update (hb : pool.blocks b = some blk) (hitems : blk'.items = blk.items)
    (htotal : blk'.totalCount = blk.totalCount)
    (hblocks : pool'.blocks = Function.update pool.blocks b (some blk')) : Keeps pool pool' := by
  intro c x hx
  by_cases hc : c = b
  · subst hc
    obtain rfl : blk = x := Option.some.inj (hb.symm.trans hx)
    exact ⟨blk', by rw [hblocks, Function.update_self], hitems, htotal⟩
  · exact ⟨x, by rw [hblocks, Function.update_of_ne hc, hx], rfl, rfl⟩

theorem Keeps.trans {pool'' : Rpool} (h : Keeps pool pool') (h' : Keeps pool' pool'') :
    Keeps pool pool'' := by
  intro c x hx
  obtain ⟨y, hy, hi, ht⟩ := h c x hx
  obtain ⟨z, hz, hi', ht'⟩ := h' c y hy
  exact ⟨z, hz, hi'.trans hi, ht'.trans ht⟩

theorem takeItem_spec (hsize : 0 < size) (h : Inv size pool live chain free)
    (hb : pool.blocks b = some blk) {item : Nat} (hhead : blk.head = some item) :
    ∃ pool' free', takeItem pool b item = .ok (some item, pool') ∧ item ∉ live ∧
      Inv size pool' (item :: live) chain free' ∧ Keeps pool pool' := by
  have hblk := h.ok b blk hb
  obtain ⟨rest, hfree⟩ : ∃ rest, free b = item :: rest := by
    have heq := hblk.head_eq
    rw [hhead] at heq
    exact List.head?_eq_some_iff.mp heq.symm
  rw [hfree] at hblk
  obtain ⟨-, next, hnext, hpath⟩ := hblk.path
  have hfresh := hblk.not_live hsize List.mem_cons_self
  have hholds := RpoolBlock.holds_of_mem hsize (hblk.mem_addrs List.mem_cons_self)
  obtain ⟨blk', hblk'⟩ : ∃ x : RpoolBlock, x = { blk with head := next, freeCount := blk.freeCount - 1 } :=
    ⟨_, rfl⟩
  obtain ⟨pool', hpool'⟩ : ∃ x : Rpool, x = { pool with
    totalFree := pool.totalFree - 1
    blocks := Function.update pool.blocks b (some blk') } := ⟨_, rfl⟩
  refine ⟨pool', Function.update free b rest, ?_, hfresh, ?_, ?_⟩
  · simp only [takeItem, link, hnext, modifyBlock_eq hb, bind, Except.bind, hpool', hblk']
    rfl
  · have hcount := hblk.count
    rw [List.length_cons] at hcount
    have hblocks : pool'.blocks = Function.update pool.blocks b (some blk') := by rw [hpool']
    refine h.recount hb hblocks (by rw [hblk']) (by rw [hblk']) (by rw [hblk'])
      (by rw [hblk']) (by rw [hpool']) (by rw [hpool']) (by rw [hpool', hblk']; dsimp only; omega) ?_
      (fun c x hc hx => ?_) (fun p hp => ?_)
    · rw [hpool', hblk']
      refine ⟨hblk.total, hpath, by dsimp only; omega, ?_, hblk.present⟩
      show (blk.addrs size).Perm (rest ++ (item :: live).filter (blk.holds size))
      rw [List.filter_cons_of_pos hholds]
      exact hblk.split.trans List.perm_middle.symm
    · rw [hpool']
      refine (h.ok c x hx).frame (fun _ _ => rfl) ?_
      have hnot := (h.apart b c blk x (Ne.symm hc) hb hx).not_holds hholds
      rw [List.filter_cons_of_neg (by simp [hnot])]
    · rcases List.mem_cons.mp hp with rfl | hp
      · exact .inr hholds
      · exact .inl hp
  · have hblocks : pool'.blocks = Function.update pool.blocks b (some blk') := by rw [hpool']
    exact keeps_update hb (by rw [hblk']) (by rw [hblk']) hblocks

theorem giveBack_spec (hsize : 0 < size) (h : Inv size pool live chain free)
    (hb : pool.blocks b = some blk) {item : Nat} (hitem : item ∈ live) (hholds : blk.holds size item = true) :
    ∃ pool' free', giveBack pool b item = .ok pool' ∧ Inv size pool' (live.erase item) chain free' ∧
      Keeps pool pool' := by
  have hblk := h.ok b blk hb
  have hmem := hblk.live_mem_addrs hitem hholds
  have hfiltered : item ∈ live.filter (blk.holds size) := List.mem_filter.mpr ⟨hitem, hholds⟩
  have hperm := List.perm_cons_erase hitem
  obtain ⟨word, hword⟩ := Option.isSome_iff_exists.mp (hblk.present item hmem)
  obtain ⟨blk', hblk'⟩ : ∃ x : RpoolBlock, x =
    { blk with head := some item, freeCount := blk.freeCount + 1 } := ⟨_, rfl⟩
  obtain ⟨pool', hpool'⟩ : ∃ x : Rpool, x = { pool with
    totalFree := pool.totalFree + 1
    blocks := Function.update pool.blocks b (some blk')
    items := Function.update pool.items item (some blk.head) } := ⟨_, rfl⟩
  have hother : ∀ {q}, q ≠ item → pool'.items q = pool.items q := by
    intro q hq
    rw [hpool']
    exact Function.update_of_ne hq _ _
  refine ⟨pool', Function.update free b (item :: free b), ?_, ?_, ?_⟩
  · have hb' : ({ pool with items := Function.update pool.items item (some blk.head) } : Rpool).blocks b =
        some blk := hb
    simp only [giveBack, block_eq hb, setLink, hword, modifyBlock_eq hb', bind, Except.bind, hpool',
      hblk']
    rfl
  · have hcount := hblk.count
    have hblocks : pool'.blocks = Function.update pool.blocks b (some blk') := by rw [hpool']
    refine h.recount hb hblocks (by rw [hblk']) (by rw [hblk']) (by rw [hblk'])
      (by rw [hblk']) (by rw [hpool']) (by rw [hpool']) (by rw [hpool', hblk']; dsimp only; omega) ?_
      (fun c x hc hx => ?_) (fun p hp => .inl (List.mem_of_mem_erase hp))
    · have hsame : pool'.items item = some blk.head := by
        rw [hpool']
        exact Function.update_self ..
      rw [hblk']
      refine ⟨hblk.total, ⟨rfl, blk.head, hsame, ?_⟩, by dsimp only; rw [List.length_cons]; omega, ?_,
        fun q hq => ?_⟩
      · refine hblk.path.congr fun q hq => hother ?_
        rintro rfl
        exact hblk.not_live hsize hq hitem
      · show (blk.addrs size).Perm (item :: free b ++ (live.erase item).filter (blk.holds size))
        refine hblk.split.trans (((hperm.filter _).append_left _).trans ?_)
        rw [List.filter_cons_of_pos hholds]
        exact List.perm_middle
      · by_cases hq' : q = item
        · rw [hq', hsame]
          rfl
        · rw [hother hq']
          exact hblk.present q hq
    · have hnot := (h.apart b c blk x (Ne.symm hc) hb hx).not_holds hholds
      refine (h.ok c x hx).frame (fun q hq => hother ?_) ?_
      · rintro rfl
        have := RpoolBlock.holds_of_mem hsize hq
        rw [hnot] at this
        cases this
      · have := hperm.filter (x.holds size)
        rwa [List.filter_cons_of_neg (by simp [hnot])] at this
  · have hblocks : pool'.blocks = Function.update pool.blocks b (some blk') := by rw [hpool']
    exact keeps_update hb (by rw [hblk']) (by rw [hblk']) hblocks

/-! ### Links of blocks -/

/-- The changes of links leave the rest of the pool alone. -/
structure Relinked (pool pool' : Rpool) : Prop where
  core : ∀ c, (pool'.blocks c).map RpoolBlock.core = (pool.blocks c).map RpoolBlock.core
  items : pool'.items = pool.items
  capacity : pool'.capacity = pool.capacity
  totalFree : pool'.totalFree = pool.totalFree
  head : pool'.freeHeadBlock = pool.freeHeadBlock

theorem Relinked.refl (pool : Rpool) : Relinked pool pool := ⟨fun _ => rfl, rfl, rfl, rfl, rfl⟩

theorem Relinked.trans {pool'' : Rpool} (h : Relinked pool pool') (h' : Relinked pool' pool'') :
    Relinked pool pool'' :=
  ⟨fun c => (h'.core c).trans (h.core c), h'.items.trans h.items, h'.capacity.trans h.capacity,
    h'.totalFree.trans h.totalFree, h'.head.trans h.head⟩

theorem Relinked.exists_block (h : Relinked pool pool') (hb : pool'.blocks b = some blk') :
    ∃ blk, pool.blocks b = some blk ∧ blk'.core = blk.core := by
  have hcore := h.core b
  rw [hb] at hcore
  obtain ⟨blk, hblk, heq⟩ := Option.map_eq_some_iff.mp hcore.symm
  exact ⟨blk, hblk, heq.symm⟩

theorem Relinked.exists_block' (h : Relinked pool pool') (hb : pool.blocks b = some blk) :
    ∃ blk', pool'.blocks b = some blk' ∧ blk'.core = blk.core := by
  have hcore := h.core b
  rw [hb] at hcore
  exact Option.map_eq_some_iff.mp hcore

theorem Relinked.keeps (h : Relinked pool pool') : Keeps pool pool' := by
  intro b blk hb
  obtain ⟨blk', hb', hcore⟩ := h.exists_block' hb
  obtain ⟨htotal, -, -, hitems⟩ := RpoolBlock.core_eq_iff.mp hcore
  exact ⟨blk', hb', hitems, htotal⟩

theorem Filled.relinked (h : Filled size pool live chain free) (hre : Relinked pool pool') :
    Filled size pool' live chain free := by
  have hsum : ∀ count : RpoolBlock → Int, (∀ blk, count blk = count blk.core) →
      pool'.sum count chain = pool.sum count chain := by
    intro count hcount
    apply sum_congr
    intro b _
    have hcore := congrArg (Option.map count) (hre.core b)
    simp only [Option.map_map] at hcore
    have hfun : count ∘ RpoolBlock.core = count := funext fun blk => (hcount blk).symm
    rwa [hfun] at hcore
  refine ⟨fun b x hx => ?_, fun b b' x x' hne hx hx' => ?_, ?_, ?_, fun p hp => ?_⟩
  · obtain ⟨y, hy, hcore⟩ := hre.exists_block hx
    rw [hre.items]
    exact (h.ok b y hy).of_core hcore
  · obtain ⟨y, hy, hcore⟩ := hre.exists_block hx
    obtain ⟨y', hy', hcore'⟩ := hre.exists_block hx'
    obtain ⟨ht, -, -, hi⟩ := RpoolBlock.core_eq_iff.mp hcore
    obtain ⟨ht', -, -, hi'⟩ := RpoolBlock.core_eq_iff.mp hcore'
    rw [RpoolBlock.Apart, ht, hi, ht', hi']
    exact h.apart b b' y y' hne hy hy'
  · rw [hre.capacity, h.capacity, hsum _ fun _ => rfl]
  · rw [hre.totalFree, h.totalFree, hsum _ fun _ => rfl]
  · obtain ⟨b, y, hy, hholds⟩ := h.live p hp
    obtain ⟨x, hx, hcore⟩ := hre.exists_block' hy
    obtain ⟨ht, -, -, hi⟩ := RpoolBlock.core_eq_iff.mp hcore
    refine ⟨b, x, hx, ?_⟩
    rw [RpoolBlock.holds, ht, hi]
    exact hholds

theorem nextLink_eq (hb : pool.blocks b = some blk) : pool.nextLink b = some blk.nextBlock := by
  rw [nextLink, hb]
  rfl

theorem prevLink_eq (hb : pool.blocks b = some blk) : pool.prevLink b = some blk.prevBlock := by
  rw [prevLink, hb]
  rfl

/-- An assignment to links of the block at `b`. -/
theorem relink (hb : pool.blocks b = some blk) {f : RpoolBlock → RpoolBlock}
    (hcore : (f blk).core = blk.core) : ∃ pool', pool.modifyBlock f (some b) = .ok pool' ∧
      Relinked pool pool' ∧ pool'.nextLink = Function.update pool.nextLink b (some (f blk).nextBlock) ∧
      pool'.prevLink = Function.update pool.prevLink b (some (f blk).prevBlock) := by
  refine ⟨_, modifyBlock_eq hb f, ⟨fun c => ?_, rfl, rfl, rfl, rfl⟩, funext fun c => ?_,
    funext fun c => ?_⟩ <;> by_cases hc : c = b
  · subst hc
    simp [hb, hcore]
  · simp [Function.update_of_ne hc]
  · subst hc
    simp [nextLink]
  · simp [nextLink, Function.update_of_ne hc]
  · subst hc
    simp [prevLink]
  · simp [prevLink, Function.update_of_ne hc]

theorem setNext_spec (hb : pool.blocks b = some blk) (q : Option Nat) :
    ∃ pool', pool.modifyBlock (fun x => { x with nextBlock := q }) (some b) = .ok pool' ∧
      Relinked pool pool' ∧ pool'.nextLink = Function.update pool.nextLink b (some q) ∧
      pool'.prevLink = pool.prevLink := by
  obtain ⟨pool', hrun, hre, hnext, hprev⟩ := relink hb (f := fun x => { x with nextBlock := q }) rfl
  refine ⟨pool', hrun, hre, hnext, ?_⟩
  rw [hprev, Function.update_eq_self_iff]
  exact (prevLink_eq hb).symm

/-- The assignment to the back link of the block behind `ptr`, when there is one. -/
theorem setPrev_spec {ptr : Option Nat} (hblock : ∀ s, ptr = some s → ∃ x, pool.blocks s = some x)
    (q : Option Nat) : ∃ pool', pool.setPrev q ptr = .ok pool' ∧ Relinked pool pool' ∧
      pool'.nextLink = pool.nextLink ∧ ∀ c, pool'.prevLink c = if ptr = some c then some q else pool.prevLink c := by
  cases ptr with
  | none => exact ⟨pool, rfl, Relinked.refl pool, rfl, fun c => (if_neg (by simp)).symm⟩
  | some s =>
    obtain ⟨x, hx⟩ := hblock s rfl
    obtain ⟨pool', hrun, hre, hnext, hprev⟩ := relink hx (f := fun x => { x with prevBlock := q }) rfl
    refine ⟨pool', hrun, hre, ?_, fun c => ?_⟩
    · rw [hnext, Function.update_eq_self_iff]
      exact (nextLink_eq hx).symm
    · rw [hprev, Function.update_apply]
      simp only [Option.some.injEq, eq_comm]

end Rpool

end Funra
