import Funra.Pool.Inv

/-!
# Adding and releasing a block

`rpool_get` puts a new block behind the first one, `rpool_free` takes a block out from anywhere behind it.
-/

namespace Funra

open Mem Linked

variable {size num b base : Nat} {pool pool' : Rpool} {live chain : List Nat} {free : Nat → List Nat}
  {blk : RpoolBlock}

/-- The memory is not in use by the pool. -/
structure RpoolAlloc.Fresh (size num : Nat) (m : RpoolAlloc) (pool : Rpool) : Prop where
  block : ∀ b, m.block = some b → pool.blocks b = none
  items : ∀ base, m.items = some base → ∀ c x, pool.blocks c = some x →
    x.items + x.totalCount * size ≤ base ∨ base + num * size ≤ x.items

namespace Rpool

/-! ### A new block -/

section addBlock

variable (hsize : 0 < size) (hnum : 0 < num) (hb : pool.blocks b = none)
  (happart : ∀ c x, pool.blocks c = some x →
    x.items + x.totalCount * size ≤ base ∨ base + num * size ≤ x.items)

include hsize hnum hb happart

theorem Filled.addBlock {l₁ l₂ : List Nat} (h : Filled size pool live (l₁ ++ l₂) free)
    (hfresh : b ∉ l₁ ++ l₂) : Filled size (pool.addBlock size num b base) live (l₁ ++ b :: l₂)
      (Function.update free b (itemAddrs size base num)) := by
  have hself : (pool.addBlock size num b base).blocks b =
      some ⟨num, num, none, none, some base, base⟩ := Function.update_self ..
  have hne : ∀ {c}, c ≠ b → (pool.addBlock size num b base).blocks c = pool.blocks c :=
    fun hc => Function.update_of_ne hc _ _
  have hsum : ∀ count : RpoolBlock → Int,
      (pool.addBlock size num b base).sum count (l₁ ++ b :: l₂) =
        pool.sum count (l₁ ++ l₂) + count ⟨num, num, none, none, some base, base⟩ := by
    intro count
    have hkeep : ∀ c ∈ l₁ ++ l₂, ((pool.addBlock size num b base).blocks c).map count =
        (pool.blocks c).map count := by
      intro c hc
      rw [hne fun heq => hfresh (heq ▸ hc)]
    rw [sum_append, sum_append, sum_cons hself,
      sum_congr fun c hc => hkeep c (List.mem_append_left _ hc),
      sum_congr fun c hc => hkeep c (List.mem_append_right _ hc)]
    omega
  refine ⟨fun c x hx => ?_, fun c c' x x' hcc hx hx' => ?_, ?_, ?_, fun p hp => ?_⟩
  · by_cases hc : c = b
    · subst hc
      rw [hself] at hx
      cases hx
      rw [Function.update_self]
      refine ⟨hnum, linkItems_path hsize hnum, by simp, ?_, fun p hp => ?_⟩
      · have hnil : live.filter
            (RpoolBlock.holds size ⟨num, num, none, none, some base, base⟩) = [] := by
          refine List.filter_eq_nil_iff.mpr fun p hp => ?_
          obtain ⟨d, y, hy, hholds⟩ := h.live p hp
          rw [RpoolBlock.holds_iff] at hholds ⊢
          dsimp only
          rcases happart d y hy with hle | hle <;> omega
        rw [hnil, List.append_nil]
        exact List.Perm.refl _
      · exact (linkItems_path hsize hnum).isSome hp
    · rw [hne hc] at hx
      rw [Function.update_of_ne hc]
      refine (h.ok c x hx).frame (fun p hp => linkItems_other fun hmem => ?_) (List.Perm.refl _)
      have h1 := itemAddrs_range hsize hp
      have h2 := itemAddrs_range hsize hmem
      rcases happart c x hx with hle | hle <;> omega
  · by_cases hc : c = b
    · subst hc
      rw [hself] at hx
      cases hx
      rw [hne (Ne.symm hcc)] at hx'
      exact (happart c' x' hx').symm
    · rw [hne hc] at hx
      by_cases hc' : c' = b
      · subst hc'
        rw [hself] at hx'
        cases hx'
        exact happart c x hx
      · rw [hne hc'] at hx'
        exact h.apart c c' x x' hcc hx hx'
  · rw [hsum, ← h.capacity]
    rfl
  · rw [hsum, ← h.totalFree]
    rfl
  · obtain ⟨c, x, hx, hholds⟩ := h.live p hp
    have hc : c ≠ b := by
      rintro rfl
      rw [hb] at hx
      cases hx
    exact ⟨c, x, (hne hc).trans hx, hholds⟩

end addBlock

/-! ### The new block in the list -/

variable {f : Nat} {t l₁ l₂ : List Nat}

/-- `b` goes behind the first block `f`. -/
theorem spliceBlock_spec (h : Chained pool (f :: t)) (g : Rpool)
    (hhead : g.freeHeadBlock = pool.freeHeadBlock) (hfresh : pool.blocks b = none)
    (hb : g.blocks b = some blk) (hkeep : ∀ c ≠ b, g.blocks c = pool.blocks c) :
    ∃ pool', spliceBlock g b = .ok pool' ∧ Relinked g pool' ∧ Chained pool' (f :: b :: t) := by
  obtain ⟨hf, r, hr, hrest⟩ := path_cons.mp h.path
  obtain ⟨first, hfirst⟩ := h.exists_block List.mem_cons_self
  have hft := (List.nodup_cons.mp h.path.nodup).1
  have hmem : ∀ c ∈ f :: t, c ≠ b := by
    rintro c hc rfl
    obtain ⟨x, hx⟩ := h.exists_block hc
    rw [hfresh] at hx
    cases hx
  have hfb : f ≠ b := hmem f List.mem_cons_self
  have hlinks : ∀ c ≠ b, g.nextLink c = pool.nextLink c ∧ g.prevLink c = pool.prevLink c := by
    intro c hc
    rw [nextLink, prevLink, hkeep c hc]
    exact ⟨rfl, rfl⟩
  have hsecond : first.nextBlock = t.head? := by
    rw [nextLink_eq hfirst] at hr
    rw [← hrest.head]
    exact Option.some.inj hr
  -- the three assignments
  have hfirst' : g.blocks f = some first := (hkeep f hfb).trans hfirst
  obtain ⟨p₁, hrun₁, hre₁, hnext₁, hprev₁⟩ := setNext_spec hfirst' (some b)
  obtain ⟨p₂, hrun₂, hre₂, hnext₂, hprev₂⟩ := @setPrev_spec p₁ first.nextBlock (fun s hs => by
    have hmemt : s ∈ t := List.mem_of_mem_head? (hsecond ▸ hs)
    obtain ⟨x, hx⟩ := h.exists_block (List.mem_cons_of_mem _ hmemt)
    have hs' : g.blocks s = some x := (hkeep s (hmem s (List.mem_cons_of_mem _ hmemt))).trans hx
    obtain ⟨y, hy, -⟩ := hre₁.exists_block' hs'
    exact ⟨y, hy⟩) (some b)
  obtain ⟨y, hy, hcore⟩ := (hre₁.trans hre₂).exists_block' hb
  obtain ⟨p₃, hrun₃, hre₃, hnext₃, hprev₃⟩ := relink hy
    (f := fun x => { x with prevBlock := p₂.freeHeadBlock, nextBlock := first.nextBlock }) rfl
  have hre := hre₁.trans (hre₂.trans hre₃)
  have hhead₂ : p₂.freeHeadBlock = some f := by rw [(hre₁.trans hre₂).head, hhead, hf]
  refine ⟨p₃, ?_, hre, ?_, ?_, by simp, fun c x hx => ?_⟩
  · simp only [spliceBlock, hhead, hf, block_eq hfirst', bind, Except.bind, hrun₁, hrun₂]
    exact hrun₃
  · have hpath : Path pool.nextLink (some f) ([] ++ f :: t) none := hf ▸ h.path
    rw [hre₃.head, hhead₂]
    refine hpath.insertAfter ?_ ?_ fun c hc => ?_
    · rw [hnext₃, Function.update_of_ne hfb, hnext₂, hnext₁, Function.update_self]
    · rw [hnext₃, Function.update_self, hsecond]
    · have hcb : c ≠ b := hmem c (List.mem_cons_of_mem _ hc)
      have hcf : c ≠ f := fun heq => hft (heq ▸ hc)
      rw [hnext₃, Function.update_of_ne hcb, hnext₂, hnext₁, Function.update_of_ne hcf, (hlinks c hcb).1]
  · have hbacked : Backed pool.prevLink none ([] ++ f :: t) := h.backed
    refine hbacked.insertAfter ?_ (fun s hs => ?_) fun c hc => ?_
    · rw [hprev₃, Function.update_self, hhead₂]
    · have hsb : s ≠ b := hmem s (List.mem_cons_of_mem _ (List.mem_of_mem_head? hs))
      rw [hprev₃, Function.update_of_ne hsb, hprev₂, if_pos (hsecond.trans hs)]
    · have hct : c = f ∨ c ∈ t.tail := List.mem_cons.mp hc
      have hcb : c ≠ b := hmem c (List.mem_cons.mpr (hct.imp_right List.mem_of_mem_tail))
      have hcs : first.nextBlock ≠ some c := by
        rw [hsecond]
        intro heq
        rcases hct with rfl | hct
        · exact hft (List.mem_of_mem_head? heq)
        · cases t with
          | nil => cases hct
          | cons s t =>
            obtain rfl : s = c := Option.some.inj heq
            exact (List.nodup_cons.mp hrest.nodup).1 hct
      rw [hprev₃, Function.update_of_ne hcb, hprev₂, if_neg hcs, hprev₁, (hlinks c hcb).2]
  · obtain ⟨x', hx', -⟩ := hre.exists_block hx
    by_cases hc : c = b
    · simp [hc]
    · rw [hkeep c hc] at hx'
      have := h.chained c x' hx'
      simp only [List.mem_cons] at this ⊢
      tauto

/-! ### A block without items in use -/

variable {a : Nat}

theorem Filled.freeBlock (hsize : 0 < size) (h : Filled size pool live (l₁ ++ b :: l₂) free)
    (hnodup : (l₁ ++ b :: l₂).Nodup) (hb : pool.blocks b = some blk)
    (hall : (blk.totalCount : Int) = blk.freeCount)
    (hblocks : pool'.blocks = Function.update pool.blocks b none)
    (hitems : pool'.items = fun p => if p ∈ blk.addrs size then none else pool.items p)
    (hcap : pool'.capacity = pool.capacity - blk.totalCount)
    (hfree : pool'.totalFree = pool.totalFree - blk.totalCount) :
    Filled size pool' live (l₁ ++ l₂) free := by
  have hgone : b ∉ l₁ ++ l₂ := (List.nodup_cons.mp (List.nodup_middle.mp hnodup)).1
  have hold : ∀ {c x}, pool'.blocks c = some x → c ≠ b ∧ pool.blocks c = some x := by
    intro c x hx
    by_cases hc : c = b
    · rw [hblocks, hc, Function.update_self] at hx
      cases hx
    · rw [hblocks, Function.update_of_ne hc] at hx
      exact ⟨hc, hx⟩
  have hsum : ∀ count : RpoolBlock → Int,
      pool'.sum count (l₁ ++ l₂) = pool.sum count (l₁ ++ b :: l₂) - count blk := by
    intro count
    have hkeep : ∀ c ∈ l₁ ++ l₂, (pool'.blocks c).map count = (pool.blocks c).map count := by
      intro c hc
      have hcb : c ≠ b := fun heq => hgone (heq ▸ hc)
      rw [hblocks, Function.update_of_ne hcb]
    rw [sum_append, sum_append, sum_cons hb,
      sum_congr fun c hc => hkeep c (List.mem_append_left _ hc),
      sum_congr fun c hc => hkeep c (List.mem_append_right _ hc)]
    omega
  refine ⟨fun c x hx => ?_, fun c c' x x' hcc hx hx' => ?_, ?_, ?_, fun p hp => ?_⟩
  · obtain ⟨hc, hx⟩ := hold hx
    refine (h.ok c x hx).frame (fun p hp => ?_) (List.Perm.refl _)
    have hout : p ∉ blk.addrs size := by
      intro hmem
      have hholds := RpoolBlock.holds_of_mem hsize hp
      rw [(h.apart b c blk x (Ne.symm hc) hb hx).not_holds
        (RpoolBlock.holds_of_mem hsize hmem)] at hholds
      cases hholds
    rw [hitems]
    exact if_neg hout
  · exact h.apart c c' x x' hcc (hold hx).2 (hold hx').2
  · rw [hcap, h.capacity, hsum]
  · rw [hfree, h.totalFree, hsum, ← hall]
  · obtain ⟨c, x, hx, hholds⟩ := h.live p hp
    have hc : c ≠ b := by
      rintro rfl
      obtain rfl : blk = x := Option.some.inj (hb.symm.trans hx)
      have hmem : p ∈ live.filter (blk.holds size) := List.mem_filter.mpr ⟨hp, hholds⟩
      rw [(h.ok c blk hb).live_eq_nil hall] at hmem
      cases hmem
    exact ⟨c, x, by rw [hblocks, Function.update_of_ne hc, hx], hholds⟩

/-- The links of a block are its neighbours. -/
theorem Chained.neighbours (h : Chained pool (l₁ ++ a :: b :: l₂)) (hb : pool.blocks b = some blk) :
    blk.prevBlock = some a ∧ blk.nextBlock = l₂.head? := by
  constructor
  · have hlink := (backed_append.mp h.backed).2.1
    rw [prevLink_eq hb] at hlink
    exact Option.some.inj hlink
  · have hpath := h.path
    rw [show l₁ ++ a :: b :: l₂ = (l₁ ++ [a]) ++ b :: l₂ by simp] at hpath
    obtain ⟨q, -, -, r, hr, hpath⟩ := path_append.mp hpath
    rw [nextLink_eq hb] at hr
    rw [← hpath.head]
    exact Option.some.inj hr

/-- The list without `b`, whose neighbours have been linked. -/
theorem Chained.unlinked (h : Chained pool (l₁ ++ a :: b :: l₂)) (hhead : pool'.freeHeadBlock = pool.freeHeadBlock)
    (hnext : ∀ c ≠ b, pool'.nextLink c = Function.update pool.nextLink a (some l₂.head?) c)
    (hprev : ∀ c ≠ b, pool'.prevLink c = if l₂.head? = some c then some (some a) else pool.prevLink c)
    (hblocks : ∀ c x, pool'.blocks c = some x → c ≠ b ∧ ∃ y, pool.blocks c = some y) :
    Chained pool' (l₁ ++ a :: l₂) := by
  have hnodup := h.path.nodup
  rw [show l₁ ++ a :: b :: l₂ = (l₁ ++ [a]) ++ b :: l₂ by simp] at hnodup
  obtain ⟨hgone, hrest⟩ := List.nodup_cons.mp (List.nodup_middle.mp hnodup)
  have hab : a ≠ b := fun heq => hgone (by simp [heq])
  have hothers : ∀ c ∈ l₁ ++ l₂, c ≠ b ∧ c ≠ a := by
    intro c hc
    constructor
    · rintro rfl
      exact hgone (by simp only [List.mem_append] at hc ⊢; tauto)
    · rintro rfl
      rw [List.append_assoc, List.singleton_append] at hrest
      exact (List.nodup_cons.mp (List.nodup_middle.mp hrest)).1 hc
  refine ⟨?_, ?_, by simp, fun c y hy => ?_⟩
  · rw [hhead]
    refine h.path.unlink ?_ fun c hc => ?_
    · rw [hnext a hab, Function.update_self]
    · obtain ⟨hcb, hca⟩ := hothers c hc
      rw [hnext c hcb, Function.update_of_ne hca]
  · refine h.backed.unlink (fun s hs => ?_) fun c hc => ?_
    · have hsb := (hothers s (List.mem_append_right _ (List.mem_of_mem_head? hs))).1
      rw [hprev s hsb, if_pos (show l₂.head? = some s from hs)]
    · have hcb : c ≠ b := by
        rintro rfl
        apply hgone
        rcases List.mem_append.mp hc with hc | hc
        · simp [hc]
        · rcases List.mem_cons.mp hc with rfl | hc
          · simp
          · simp [List.mem_of_mem_tail hc]
      have hcs : l₂.head? ≠ some c := by
        intro heq
        cases l₂ with
        | nil => cases heq
        | cons s t =>
          obtain rfl : s = c := Option.some.inj heq
          simp only [List.nodup_append, List.nodup_cons, List.mem_append, List.mem_cons,
            List.tail_cons] at hrest hc
          grind
      rw [hprev c hcb, if_neg hcs]
  · obtain ⟨hc, z, hz⟩ := hblocks c y hy
    have := h.chained c z hz
    simp only [List.mem_append, List.mem_cons] at this ⊢
    tauto

/-- The block behind `a` is released. -/
theorem releaseBlock_spec (hsize : 0 < size) (h : Inv size pool live (l₁ ++ a :: b :: l₂) free)
    (hb : pool.blocks b = some blk) (hall : (blk.totalCount : Int) = blk.freeCount) :
    ∃ pool', releaseBlock size pool b = .ok pool' ∧ Inv size pool' live (l₁ ++ a :: l₂) free ∧
      ∀ c ≠ b, (pool'.blocks c).map RpoolBlock.core = (pool.blocks c).map RpoolBlock.core := by
  have hsplit : l₁ ++ a :: b :: l₂ = (l₁ ++ [a]) ++ b :: l₂ := by simp
  have hnodup := h.path.nodup
  rw [hsplit] at hnodup
  obtain ⟨x, hx⟩ := h.exists_block (b := a) (by simp)
  obtain ⟨hprev, hnext⟩ := h.toChained.neighbours hb
  -- the two assignments
  obtain ⟨p₁, hrun₁, hre₁, hnext₁, hprev₁⟩ := setNext_spec hx blk.nextBlock
  obtain ⟨p₂, hrun₂, hre₂, hnext₂, hprev₂⟩ := @setPrev_spec p₁ blk.nextBlock (fun s hs => by
    have hmem : s ∈ l₁ ++ a :: b :: l₂ := by
      have := List.mem_of_mem_head? (hnext ▸ hs)
      simp [this]
    obtain ⟨y, hy⟩ := h.exists_block hmem
    obtain ⟨z, hz, -⟩ := hre₁.exists_block' hy
    exact ⟨z, hz⟩) blk.prevBlock
  have hre := hre₁.trans hre₂
  obtain ⟨blk₂, hb₂, hcore⟩ := hre.exists_block' hb
  obtain ⟨htotal, hcount, -, hitems⟩ := RpoolBlock.core_eq_iff.mp hcore
  have haddrs : blk₂.addrs size = blk.addrs size := by
    rw [RpoolBlock.addrs, htotal, hitems, RpoolBlock.addrs]
  have hfilled : Filled size p₂ live ((l₁ ++ [a]) ++ b :: l₂) free := hsplit ▸ h.toFilled.relinked hre
  obtain ⟨pool', hpool'⟩ : ∃ y : Rpool, y = { p₂.freeBlock size b blk with
    capacity := p₂.capacity - blk.totalCount
    totalFree := p₂.totalFree - blk.totalCount } := ⟨_, rfl⟩
  have hblocks : pool'.blocks = Function.update p₂.blocks b none := by
    rw [hpool']
    rfl
  refine ⟨pool', ?_, ⟨h.toChained.unlinked ?_ (fun c hc => ?_) (fun c hc => ?_) fun c y hy => ?_, ?_⟩, fun c hc => ?_⟩
  · rw [hprev] at hrun₂
    simp only [releaseBlock, block_eq hb, hprev, bind, Except.bind, hrun₁, hrun₂]
    rw [hpool']
    rfl
  · rw [hpool']
    exact hre.head
  · rw [nextLink, hblocks, Function.update_of_ne hc, ← hnext, ← hnext₁, ← hnext₂]
    rfl
  · rw [prevLink, hblocks, Function.update_of_ne hc, ← hnext, ← hprev, ← hprev₁, ← hprev₂]
    rfl
  · by_cases hc : c = b
    · rw [hblocks, hc, Function.update_self] at hy
      cases hy
    · rw [hblocks, Function.update_of_ne hc] at hy
      obtain ⟨z, hz, -⟩ := hre.exists_block hy
      exact ⟨hc, z, hz⟩
  · have hall₂ : (blk₂.totalCount : Int) = blk₂.freeCount := by rw [htotal, hcount, hall]
    have hkept := hfilled.freeBlock hsize hnodup hb₂ hall₂ hblocks
      (by rw [hpool', haddrs]; rfl) (by rw [hpool', htotal]) (by rw [hpool', htotal])
    rwa [List.append_assoc, List.singleton_append] at hkept
  · rw [hblocks, Function.update_of_ne hc]
    exact hre.core c

end Rpool

end Funra
