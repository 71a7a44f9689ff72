import Funra.Rdict.Rehash

/-!
# The operations

`rdict_add` expands the table while the bucket of the key has no room, and `AddSettles` says at which
bucket counts: whether the bucket has room depends on the entries with other keys in it (`others`), not
on the slots. What an addition does to the entries is `rdictAdd_spec`; `rdictClear_spec` and
`rdictCreate_spec` are about the tables without entries.
-/

namespace Funra

open Mem Table

variable {K V E : Type} {t : RdictFuncs K V E} {d d' : Rdict K V E} {k : K} {e : RdictEntry K V}
  {ok : Nat → Bool} {scale : Nat → Nat} {code : Int}

/-- How many of the entries in the bucket of `k` have another key. -/
def others (t : RdictFuncs K V E) (n : Nat) (es : List (RdictEntry K V)) (k : K) : Nat :=
  es.countP fun e =>
    inBucket t n (t.hashFunc k % n) e && !(e.key.any fun k' => t.isKeyEqual k' k)

/-- The bucket counts that adding `k` to a table of `n` buckets settles at. The bucket has room while
fewer than `w - 1` of its entries have other keys. -/
inductive AddSettles (t : RdictFuncs K V E) (scale : Nat → Nat) (w : Nat)
    (es : List (RdictEntry K V)) (k : K) : Nat → Nat → Prop
  | once {n m : Nat} : w - 1 ≤ others t n es k → SettlesAt t scale w es (expandCapacity (n * w)) m →
      AddSettles t scale w es k n m
  | again {n m l : Nat} : w - 1 ≤ others t n es k →
      SettlesAt t scale w es (expandCapacity (n * w)) m → AddSettles t scale w es k m l →
      AddSettles t scale w es k n l

theorem others_perm {n : Nat} {es es' : List (RdictEntry K V)} (h : es.Perm es') :
    others t n es k = others t n es' k := h.countP_eq _

theorem AddSettles.perm {w n m : Nat} {es es' : List (RdictEntry K V)} (hp : es.Perm es')
    (h : AddSettles t scale w es k n m) : AddSettles t scale w es' k n m := by
  induction h with
  | once hcrowd hs => exact .once (others_perm hp ▸ hcrowd) (hs.perm hp)
  | again hcrowd hs _ ih => exact .again (others_perm hp ▸ hcrowd) (hs.perm hp) ih

theorem AddSettles.crowded {w n m : Nat} {es : List (RdictEntry K V)} (h : AddSettles t scale w es k n m) :
    w - 1 ≤ others t n es k := by
  cases h with
  | once hcrowd _ => exact hcrowd
  | again hcrowd _ _ => exact hcrowd

/-- A table of fewer entries than a bucket takes has room. -/
theorem not_addSettles {w n m : Nat} {es : List (RdictEntry K V)} (hlen : es.length < w - 1) :
    ¬ AddSettles t scale w es k n m := by
  intro h
  have hcrowd := h.crowded
  have hle : others t n es k ≤ es.length := List.countP_le_length
  omega

/-! ### Adding -/

/-- Other keys are in all slots of the bucket of `k` but the last one. -/
def Crowded (t : RdictFuncs K V E) (d : Rdict K V E) (k : K) : Prop :=
  ∀ j < d.bucketCapacity - 1, ∃ e, d.slots[d.start t k + j]? = some e ∧ e.occupied = true ∧ ¬ HasKey t k e

/-- The search leaves room if and only if the bucket is not crowded. -/
theorem crowded_iff {n : Nat} (hscan : scan t k (d.slots.drop (d.start t k)) = .ok (n, e)) :
    Crowded t d k ↔ d.bucketCapacity - 1 ≤ n := by
  obtain ⟨hslot, hstop, hpass⟩ := scan_inv hscan
  rw [List.getElem?_drop] at hslot
  constructor
  · intro hcrowd
    by_contra hlt
    obtain ⟨x, hx, ho, hne⟩ := hcrowd n (by omega)
    rw [hslot] at hx
    cases hx
    exact hne (hstop ho)
  · intro hn j hj
    obtain ⟨x, hx, ho, hne⟩ := hpass j (by omega)
    rw [List.getElem?_drop] at hx
    exact ⟨x, hx, ho, hne⟩

/-- In a crowded bucket there are entries with other keys. -/
theorem Crowded.le_others (hcrowd : Crowded t d k) (h : d.Tidy)
    (hp : Placed t d.bucketCapacity d.buckets d.slots) :
    d.bucketCapacity - 1 ≤ others t d.buckets d.entries k := by
  have hseg : ((d.slots.drop (d.start t k)).take (d.bucketCapacity - 1)).length =
      d.bucketCapacity - 1 := by
    rw [List.length_take, Nat.min_eq_left]
    rcases Nat.eq_zero_or_pos (d.bucketCapacity - 1) with h0 | hpos
    · omega
    · obtain ⟨x, hx, -⟩ := hcrowd (d.bucketCapacity - 1 - 1) (by omega)
      have := (List.getElem?_eq_some_iff.mp hx).1
      rw [List.length_drop]
      omega
  have hmem : ∀ x ∈ (d.slots.drop (d.start t k)).take (d.bucketCapacity - 1), x.occupied = true ∧
      (inBucket t d.buckets (t.hashFunc k % d.buckets) x &&
        !(x.key.any fun k' => t.isKeyEqual k' k)) = true := by
    intro x hx
    obtain ⟨j, hj⟩ := List.mem_iff_getElem?.mp hx
    rw [List.getElem?_take] at hj
    split at hj
    · rename_i hlt
      obtain ⟨y, hy, ho, hne⟩ := hcrowd j hlt
      rw [List.getElem?_drop, hy] at hj
      cases hj
      obtain ⟨k', hk'⟩ := occupied_iff.mp ho
      refine ⟨ho, ?_⟩
      rw [Bool.and_eq_true, inBucket_iff hk', ← hp _ x k' hy hk', h.start_row (by omega)]
      refine ⟨rfl, ?_⟩
      rw [hk', Option.any_some, Bool.not_eq_true']
      exact Bool.eq_false_iff.mpr fun heq => hne ⟨k', hk', heq⟩
    · cases hj
  have hsub : ((d.slots.drop (d.start t k)).take (d.bucketCapacity - 1)).Sublist d.entries := by
    rw [← List.filter_eq_self.mpr fun x hx => (hmem x hx).1]
    exact ((List.take_sublist _ _).trans (List.drop_sublist _ _)).filter _
  calc d.bucketCapacity - 1
      = ((d.slots.drop (d.start t k)).take (d.bucketCapacity - 1)).length := hseg.symm
    _ = List.countP _ _ := (List.countP_eq_length.mpr fun x hx => (hmem x hx).2).symm
    _ ≤ others t d.buckets d.entries k := hsub.countP_le

/-- How a round of an addition ends: with the entry in its slot, behind a rehash that failed, or in the next round. -/
inductive AddRound (t : RdictFuncs K V E) (ok : Nat → Bool) (scale : Nat → Nat) (fuel : Nat) (d : Rdict K V E) (k : K)
    (val : Option V) : Int → Rdict K V E → Prop
  | put {n : Nat} {e : RdictEntry K V} : scan t k (d.slots.drop (d.start t k)) = .ok (n, e) →
      n < d.bucketCapacity - 1 → AddRound t ok scale fuel d k val rdictCodeOk (putAt t d (d.start t k + n) e k val)
  | refused {n : Nat} {e : RdictEntry K V} {code : Int} {d₁ : Rdict K V E} :
      scan t k (d.slots.drop (d.start t k)) = .ok (n, e) → d.bucketCapacity - 1 ≤ n →
      rdictExpand t ok scale fuel d d.capacity = .ok (code, d₁) → code ≠ rdictCodeOk →
      AddRound t ok scale fuel d k val code d₁
  | again {n : Nat} {e : RdictEntry K V} {code : Int} {d₁ d' : Rdict K V E} :
      scan t k (d.slots.drop (d.start t k)) = .ok (n, e) → d.bucketCapacity - 1 ≤ n →
      rdictExpand t ok scale fuel d d.capacity = .ok (rdictCodeOk, d₁) →
      rdictAdd t ok scale fuel d₁ (some k) val = .ok (code, d') → AddRound t ok scale fuel d k val code d'

theorem rdictAdd_cases {fuel : Nat} {val : Option V} {code : Int}
    (hrun : rdictAdd t ok scale (fuel + 1) d (some k) val = .ok (code, d')) :
    0 < d.buckets ∧ AddRound t ok scale fuel d k val code d' := by
  obtain ⟨start, hfb, hrun⟩ := Except.of_bind_ok hrun
  obtain ⟨hpos, rfl⟩ := findBucket_inv hfb
  obtain ⟨⟨n, e⟩, hscan, hrun⟩ := Except.of_bind_ok hrun
  refine ⟨hpos, ?_⟩
  dsimp only at hrun
  by_cases hn : n ≥ d.bucketCapacity - 1
  · rw [if_pos hn] at hrun
    obtain ⟨⟨code₁, d₁⟩, hx, hrun⟩ := Except.of_bind_ok hrun
    dsimp only at hrun
    by_cases hcode : code₁ = rdictCodeOk
    · rw [if_neg (not_not.mpr hcode)] at hrun
      subst hcode
      exact .again hscan hn hx hrun
    · rw [if_pos hcode] at hrun
      cases hrun
      exact .refused hscan hn hx hcode
  · rw [if_neg hn] at hrun
    cases hrun
    exact .put hscan (Nat.not_le.mp hn)

/-- What an addition of `k` to `d` leads to. -/
structure Added (t : RdictFuncs K V E) (ok : Nat → Bool) (scale : Nat → Nat) (k : K) (val : Option V)
    (d d' : Rdict K V E) (code : Int) : Prop where
  inv : d'.Inv t
  bucketCapacity : d'.bucketCapacity = d.bucketCapacity
  entryNull : d'.entryNull = d.entryNull
  entries : (code = rdictCodeOk ∧ ∃ ext, Put t k (t.copyValueFunc ext val).1 d.entries d'.entries) ∨
    (code = rdictCodeError ∧ d'.entries.Perm d.entries ∧ ∃ i, ok i = false)
  buckets : d'.buckets = d.buckets ∨
    AddSettles t scale d.bucketCapacity d.entries k d.buckets d'.buckets
  lastFree : (∀ n, AddSettles t scale d.bucketCapacity d.entries k d.buckets n →
    ∀ b, load t n d.entries b < d.bucketCapacity) → (∀ b, LastFree d b) → ∀ b, LastFree d' b

theorem putAt_added (hc : Compatible t) (h : d.Inv t) {n : Nat} {val : Option V}
    (hscan : scan t k (d.slots.drop (d.start t k)) = .ok (n, e)) (hn : n < d.bucketCapacity - 1) :
    Added t ok scale k val d (putAt t d (d.start t k + n) e k val) rdictCodeOk := by
  obtain ⟨hinv, hput⟩ := putAt_spec hc h val hscan hn
  have hshape := putAt_shape t d (d.start t k + n) e k val
  refine ⟨hinv, hshape.bucketCapacity, hshape.entryNull, .inl ⟨rfl, hput⟩, .inl hshape.buckets,
    fun _ hfree b => putAt_lastFree h ?_ ?_ (hfree b)⟩
  · rw [Rdict.start, Nat.mul_comm, Nat.mul_add_mod, Nat.mod_eq_of_lt (by omega)]
    exact hn
  · exact (List.getElem?_eq_some_iff.mp (scan_slot hscan).1).1

/-- The bucket counts of the addition to the rehashed table are some of those of the old one. -/
theorem AddSettles.of_rebuilt {d₁ : Rdict K V E} {m l : Nat}
    (hcrowd : d.bucketCapacity - 1 ≤ others t d.buckets d.entries k)
    (hsettles : SettlesAt t scale d.bucketCapacity d.entries
      (expandCapacity (d.buckets * d.bucketCapacity)) m)
    (hre : Rebuilt t m d d₁) (hl : AddSettles t scale d₁.bucketCapacity d₁.entries k d₁.buckets l) :
    AddSettles t scale d.bucketCapacity d.entries k d.buckets l := by
  rw [hre.bucketCapacity, hre.buckets] at hl
  exact .again hcrowd hsettles (hl.perm hre.entries)

/-- Adding behind a rehash. -/
theorem Added.of_rebuilt {d₁ : Rdict K V E} {m : Nat} {val : Option V}
    (hadd : Added t ok scale k val d₁ d' code)
    (hcrowd : d.bucketCapacity - 1 ≤ others t d.buckets d.entries k)
    (hsettles : SettlesAt t scale d.bucketCapacity d.entries
      (expandCapacity (d.buckets * d.bucketCapacity)) m)
    (hre : Rebuilt t m d d₁) (hinv : d₁.Inv t) : Added t ok scale k val d d' code := by
  have honce : AddSettles t scale d.bucketCapacity d.entries k d.buckets m := .once hcrowd hsettles
  refine ⟨hadd.inv, hadd.bucketCapacity.trans hre.bucketCapacity,
    hadd.entryNull.trans hre.entryNull, ?_, ?_, fun hload _ => ?_⟩
  · rcases hadd.entries with ⟨hok, ext, hput⟩ | ⟨herr, hperm, hfail⟩
    · exact .inl ⟨hok, ext, KeyMap.Put.perm_left hre.entries.symm hput⟩
    · exact .inr ⟨herr, hperm.trans hre.entries, hfail⟩
  · rcases hadd.buckets with heq | hsome
    · exact .inr (by rw [heq, hre.buckets]; exact honce)
    · exact .inr (.of_rebuilt hcrowd hsettles hre hsome)
  · refine hadd.lastFree (fun l hl b => ?_) fun b => ?_
    · rw [hre.bucketCapacity, load_perm hre.entries]
      exact hload l (.of_rebuilt hcrowd hsettles hre hl) b
    · rw [lastFree_iff hinv.tidy hinv.placed, hre.bucketCapacity, hre.buckets, load_perm hre.entries]
      exact hload m honce b

theorem rdictAdd_spec (hc : Compatible t) {fuel : Nat} {val : Option V} (h : d.Inv t)
    (hroom : ∀ n, AddSettles t scale d.bucketCapacity d.entries k d.buckets n →
      n * d.bucketCapacity < 4294967296)
    (hrun : rdictAdd t ok scale fuel d (some k) val = .ok (code, d')) :
    Added t ok scale k val d d' code := by
  induction fuel generalizing d with
  | zero => cases hrun
  | succ fuel ih =>
    obtain ⟨-, hround⟩ := rdictAdd_cases hrun
    cases hround with
    | put hscan hn => exact putAt_added hc h hscan hn
    | refused hscan hn hx hcode =>
      rcases expandBuckets_spec h hx with ⟨rfl, ⟨heap, rfl⟩, hfail⟩ | ⟨rfl, -⟩
      · exact ⟨h.of_heap heap, rfl, rfl, .inr ⟨rfl, List.Perm.refl _, hfail⟩, .inl rfl, fun _ hfree => hfree⟩
      · exact absurd rfl hcode
    | again hscan hn hx hrest =>
      have hcrowd := ((crowded_iff hscan).mpr hn).le_others h.tidy h.placed
      rcases expandBuckets_spec h hx with ⟨hcode, -⟩ | ⟨-, m, hsettles, hre⟩
      · exact absurd hcode (by decide)
      · rw [h.capacity_eq] at hsettles
        have hinv := hre.inv (hroom m (.once hcrowd hsettles))
        have hadd := ih hinv (fun l hl =>
          hre.bucketCapacity ▸ hroom l (.of_rebuilt hcrowd hsettles hre hl)) hrest
        exact hadd.of_rebuilt hcrowd hsettles hre hinv

/-! ### Tables without entries -/

/-- `d` has a table of `n` buckets and nothing in it. -/
structure Vacant (n : Nat) (d : Rdict K V E) : Prop where
  buckets : d.buckets = n
  table : d.entry.isSome = true
  slots : d.slots = List.replicate d.capacity RdictEntry.empty
  entryNull : d.entryNull = none
  size : d.size = 0

theorem filter_replicate_empty (m : Nat) :
    (List.replicate m (RdictEntry.empty : RdictEntry K V)).filter RdictEntry.occupied = [] :=
  List.filter_eq_nil_iff.mpr fun x hx => by rw [List.eq_of_mem_replicate hx]; simp

theorem Vacant.entries {n : Nat} (h : Vacant n d) : d.entries = [] := by
  rw [Rdict.entries, h.slots, filter_replicate_empty]

theorem Vacant.inv {n : Nat} (h : Vacant n d) (hw : 0 < d.bucketCapacity)
    (hcap : d.capacity = n * d.bucketCapacity) (hlt : d.capacity < 4294967296) : d.Inv t := by
  have hf := filled_empty t d.bucketCapacity d.buckets d.capacity
  rw [← h.slots] at hf
  refine ⟨hw, h.table, ?_, h.buckets ▸ hcap, hlt, hf.compact, hf.placed, ?_, ?_⟩
  · rw [h.slots, List.length_replicate]
  · rw [h.entries]
    exact List.Pairwise.nil
  · rw [h.size, h.entries, h.entryNull]
    rfl

theorem Vacant.lastFree {n : Nat} (h : Vacant n d) (b : Nat) : LastFree d b := by
  rintro ⟨x, hx, ho⟩
  rw [h.slots] at hx
  rw [List.eq_of_mem_replicate (List.mem_of_getElem? hx)] at ho
  cases ho

theorem rdictCreate_spec {fuel init bc : Nat} {ext : E} {heap : RdictHeap} (hbc : 0 < bc)
    (hok : ok heap.calls = true) (hrun : rdictCreate t ok scale fuel init bc ext heap = .ok d) :
    ∃ n, n = bucketCountOf (u32 (scale (if init > 0 then init else 16))) bc ∧ Vacant n d ∧
      d.bucketCapacity = bc ∧ d.capacity = u32 (n * bc) ∧ d.dataExt = ext := by
  unfold rdictCreate at hrun
  dsimp only at hrun
  rw [if_pos hbc] at hrun
  generalize hn : bucketCountOf (u32 (scale (if init > 0 then init else 16))) bc = n
  cases fuel with
  | zero => cases hrun
  | succ fuel =>
    have halloc : heap.alloc ok = (some heap.calls, { heap with calls := heap.calls + 1 }) := by
      simp [RdictHeap.alloc, hok]
    rw [expandBuckets] at hrun
    dsimp only at hrun
    rw [halloc, hn] at hrun
    cases hrun
    exact ⟨n, rfl, ⟨rfl, rfl, rfl, rfl, rfl⟩, rfl, rfl, rfl⟩

/-- Freeing entries changes the slots and what the callbacks see. -/
theorem freeAt_shape (hnull : d.entryNull = none) (ref : RdictRef) :
    SameShape d (freeAt t d ref) ∧ (freeAt t d ref).entry.isSome = d.entry.isSome := by
  cases ref with
  | null => exact ⟨⟨rfl, rfl, rfl, by simp [freeAt, hnull], rfl⟩, rfl⟩
  | slot i => exact ⟨⟨rfl, rfl, rfl, rfl, rfl⟩, isSome_withSlots _⟩

theorem clearLoop_shape {fuel : Nat} {next : Option Nat} (hnull : d.entryNull = none)
    (hrun : clearLoop t fuel d next = .ok d') :
    SameShape d d' ∧ d'.entry.isSome = d.entry.isSome := by
  induction fuel generalizing d next with
  | zero => cases hrun
  | succ fuel ih =>
    obtain ⟨⟨ref, next'⟩, -, hrun⟩ := Except.of_bind_ok hrun
    rcases ref with _ | ref
    · cases hrun
      exact ⟨⟨rfl, rfl, rfl, rfl, rfl⟩, rfl⟩
    · obtain ⟨hshape, hsome⟩ := freeAt_shape (t := t) hnull ref
      obtain ⟨hshape', hsome'⟩ := ih (hshape.entryNull.trans hnull) hrun
      exact ⟨⟨hshape'.buckets.trans hshape.buckets, hshape'.bucketCapacity.trans hshape.bucketCapacity,
        hshape'.capacity.trans hshape.capacity, hshape'.entryNull.trans hshape.entryNull,
        hshape'.heap.trans hshape.heap⟩, hsome'.trans hsome⟩

/-- `rdict_clear` leaves an empty table of the same shape. -/
theorem rdictClear_vacant (htable : d.entry.isSome = true) (hrun : rdictClear t d = .ok d') :
    Vacant d.buckets d' ∧ d'.bucketCapacity = d.bucketCapacity ∧ d'.capacity = d.capacity := by
  obtain ⟨d₁, hloop, hrun⟩ := Except.of_bind_ok hrun
  obtain ⟨hshape, hsome⟩ := clearLoop_shape rfl hloop
  cases hrun
  refine ⟨⟨hshape.buckets, ?_, ?_, hshape.entryNull, rfl⟩, hshape.bucketCapacity, hshape.capacity⟩
  · exact (isSome_withSlots _).trans (hsome.trans htable)
  · exact slots_of_entry (hsome.trans htable) rfl

theorem rdictClear_spec (h : d.Inv t) (hrun : rdictClear t d = .ok d') :
    d'.Inv t ∧ Vacant d.buckets d' ∧ d'.bucketCapacity = d.bucketCapacity := by
  obtain ⟨hvacant, hw, hcap⟩ := rdictClear_vacant h.table hrun
  refine ⟨hvacant.inv ?_ ?_ ?_, hvacant, hw⟩
  · exact hw ▸ h.width
  · rw [hcap, hw]
    exact h.capacity_eq
  · exact hcap ▸ h.capacity_lt

end Funra
