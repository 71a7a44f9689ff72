import Funra.Rstring.Concat
import Funra.Rstring.Kmp

/-!
# Splitting

`rstr_split` cuts the source at the positions `_kmp_search` finds. The search also finds occurrences that overlap:
the length of the piece between two of them is negative, and as a `size_t` exceeds every string.
-/

namespace Funra

open Mem CInt Except Words

/-- `rstr_sub` with `new`. A string that is too short fails the assertion. -/
def rstrSub (M : Malloc) (src : CStr) (start destSize : Nat) : Except Fault Obj := do
  if (← rstrLen src.obj 0) < sizeT (start + destSize) then .error .outOfBounds
  else
    let dest ← store (rstrNew M destSize) 0 (← Mem.load src.obj start destSize)
    store dest destSize [0]

def setToken (ret : List (Option Obj)) (index : Nat) (token : Option Obj) : Except Fault (List (Option Obj)) :=
  if index < ret.length then .ok (ret.set index token) else .error .outOfBounds

/-- `(size_t)rarray_at(array_tokens, index)`. -/
def tokenPos (tokens : Rarray Int) (index : Nat) : Except Fault Nat := do
  return sizeT (← rarrayAt tokens index)

/-- The piece that ends at the match with this index. -/
def splitRound (M : Malloc) (src : CStr) (delimLen : Nat) (tokens : Rarray Int) (index : Nat)
    (ret : List (Option Obj)) : Except Fault (List (Option Obj)) := do
  let fromPos := sizeT ((← tokenPos tokens (index - 1)) + delimLen)
  let subLen := sizeT ((← tokenPos tokens index) - fromPos)
  setToken ret index (some (← rstrSub M src fromPos subLen))

/-- The piece behind the last match, and the end of the array. -/
def splitLast (M : Malloc) (src : CStr) (delimLen : Nat) (tokens : Rarray Int) (ret : List (Option Obj)) :
    Except Fault (List (Option Obj)) := do
  let dataLen := tokens.size
  let fromPos := sizeT ((← tokenPos tokens (dataLen - 1)) + delimLen)
  let subLen := sizeT ((← rstrLen src.obj 0) - fromPos)
  let ret ← setToken ret dataLen (some (← rstrSub M src fromPos subLen))
  setToken ret (dataLen + 1) none

def splitTokens (M : Malloc) (src : CStr) (delimLen : Nat) (tokens : Rarray Int) :
    Except Fault (List (Option Obj)) := do
  let dataLen := tokens.size
  let ret := List.replicate (uint32 (dataLen + 1 + 1)).toNat none
  let ret ← setToken ret 0 (some (← rstrSub M src 0 (← tokenPos tokens 0)))
  let ret ← forEach (splitRound M src delimLen tokens) (List.range' 1 (dataLen - 1)) ret
  splitLast M src delimLen tokens ret

def rstrSplit (M : Malloc) (fuel : Nat) (src delim : CStr) : Except Fault (Option (List (Option Obj))) := do
  let tokens ← kmpSearch fuel src delim 0
  if tokens.size = 0 then
    let _ ← rarrayRelease tokens
    return none
  else
    let ret ← splitTokens M src (← rstrLen delim.obj 0) tokens
    let _ ← rarrayRelease tokens
    return some ret

/-! ### The pieces -/

variable {M : Malloc} {src delim : CStr} {tokens : Rarray Int} {P rest done : List Nat} {ts : List Obj} {m start n p : Nat}

/-- The array holds these positions. -/
structure Positions (tokens : Rarray Int) (P : List Nat) : Prop where
  rep : RarrayRep intArrayFuncs tokens (toInts P)
  lt : ∀ p ∈ P, p < 2147483648

theorem Positions.size (h : Positions tokens P) : tokens.size = P.length := by
  rw [h.rep.size, toInts_length]

theorem Positions.length_lt (h : Positions tokens P) : P.length < 2147483648 := by
  have hlt := h.rep.lt
  rwa [toInts_length] at hlt

theorem Positions.get (h : Positions tokens P) {index : Nat} (hget : P[index]? = some p) :
    tokenPos tokens index = .ok p := by
  have hp := h.lt p (List.mem_of_getElem? hget)
  have hint : (toInts P).getD index 0 = p := by
    rw [toInts, List.getD_eq_getElem?_getD, List.getElem?_map, hget]
    rfl
  rw [tokenPos, rarrayAt_eq h.rep, hint]
  simp only [bind, Except.bind, pure, Except.pure]
  rw [sizeT_eq, Nat.mod_eq_of_lt (by omega)]

theorem rstrSub_ok (h : start + n ≤ src.chars.length) :
    rstrSub M src start n = .ok ((src.chars.drop start).take n ++ [0]) := by
  have hfits := src.fits
  have hlen : ((src.chars.drop start).take n).length = n := by
    rw [List.length_take, List.length_drop]
    omega
  have hnew : (rstrNew M n).length = n + 1 := by
    rw [rstrNew, M.length_block, ← Nat.cast_succ, sizeT_eq, Nat.mod_eq_of_lt (by omega)]
  unfold rstrSub
  rw [rstrLen_obj (Nat.zero_le _), ← Nat.cast_add, sizeT_eq]
  simp only [bind, Except.bind]
  rw [if_neg (by omega), load_obj h]
  dsimp only
  obtain ⟨dest, hstore, hprefix, hdest⟩ := store_append (t := []) (b := (src.chars.drop start).take n)
    (List.nil_prefix (l := rstrNew M n)) (by rw [List.length_nil, hlen]; omega)
  rw [show store (rstrNew M n) 0 ((src.chars.drop start).take n) = .ok dest from hstore]
  dsimp only
  rw [List.nil_append] at hprefix
  obtain ⟨dest', hstore', hprefix', hdest'⟩ := store_append (b := [0]) hprefix
    (by rw [hlen, List.length_singleton]; omega)
  rw [hlen] at hstore'
  rw [hstore', ← hprefix'.eq_of_length (by rw [List.length_append, hlen, List.length_singleton]; omega)]

theorem rstrSub_returns : (rstrSub M src start n).Returns fun _ => start + n ≤ src.chars.length := by
  have hfits := src.fits
  intro token hrun
  unfold rstrSub at hrun
  rw [rstrLen_obj (Nat.zero_le _), ← Nat.cast_add, sizeT_eq] at hrun
  simp only [bind, Except.bind] at hrun
  split at hrun
  next => cases hrun
  next hle =>
    by_contra hlt
    rw [Mem.load, if_neg (by rw [CStr.obj_length]; omega)] at hrun
    cases hrun

/-- The room left in the array of pointers. -/
def unset (n : Nat) : List (Option Obj) := List.replicate n none

/-- The strings that are stored in it. -/
def stringsOf (ts : List Obj) : List (Option Obj) := ts.map fun t => some (t ++ [0])

theorem setToken_next (ts : List Obj) (n : Nat) (t : Obj) :
    setToken (stringsOf ts ++ unset (n + 1)) ts.length (some (t ++ [0])) = .ok (stringsOf (ts ++ [t]) ++ unset n) := by
  have hlen : (stringsOf ts).length = ts.length := List.length_map _
  rw [setToken, if_pos (by simp [hlen, unset]), List.set_append_right _ _ (by omega), hlen, Nat.sub_self]
  simp [stringsOf, unset, List.replicate_succ]

theorem splitRound_ok (h : Positions tokens P) (hP : P = done ++ p :: n :: rest) (hle : p + m ≤ n)
    (hn : n ≤ src.chars.length) {k : Nat} (hts : ts.length = done.length + 1) :
    splitRound M src m tokens (done.length + 1) (stringsOf ts ++ unset (k + 1)) =
      .ok (stringsOf (ts ++ [(src.chars.drop (p + m)).take (n - (p + m))]) ++ unset k) := by
  have hfits := src.fits
  have hp : P[done.length + 1 - 1]? = some p := by simp [hP]
  have hnext : P[done.length + 1]? = some n := by simp [hP]
  unfold splitRound
  rw [h.get hp, h.get hnext]
  simp only [bind, Except.bind]
  rw [← Nat.cast_add, sizeT_eq, Nat.mod_eq_of_lt (by omega), ← Nat.cast_sub hle, sizeT_eq, Nat.mod_eq_of_lt (by omega),
    rstrSub_ok (by omega), ← hts]
  exact setToken_next ts k _

theorem splitLast_ok (h : Positions tokens P) (hP : P = done ++ [p]) (hle : p + m ≤ src.chars.length)
    (hts : ts.length = done.length + 1) :
    splitLast M src m tokens (stringsOf ts ++ unset 2) = .ok (rstrArray (ts ++ [src.chars.drop (p + m)])) := by
  have hfits := src.fits
  have hsize : tokens.size = done.length + 1 := by rw [h.size, hP, List.length_append, List.length_singleton]
  have hp : P[done.length + 1 - 1]? = some p := by simp [hP]
  unfold splitLast
  dsimp only
  rw [hsize, h.get hp, rstrLen_obj (Nat.zero_le _)]
  simp only [bind, Except.bind]
  rw [← Nat.cast_add, sizeT_eq, Nat.mod_eq_of_lt (by omega), Nat.sub_zero, ← Nat.cast_sub hle, sizeT_eq,
    Nat.mod_eq_of_lt (by omega), rstrSub_ok (by omega),
    List.take_of_length_le (by rw [List.length_drop]), ← hts]
  dsimp only
  rw [setToken_next ts 1]
  simp only [setToken]
  rw [if_pos (by simp [stringsOf, unset])]
  simp [stringsOf, unset, rstrArray]

/-- The rounds from the match behind `p` on, and what comes after the loop. -/
theorem splitRounds_ok (h : Positions tokens P) (hP : P = done ++ p :: rest) (hspaced : Spaced m (p + m) rest)
    (hfit : ∀ q ∈ p :: rest, q + m ≤ src.chars.length) (hts : ts.length = done.length + 1) :
    (forEach (splitRound M src m tokens) (List.range' (done.length + 1) rest.length)
      (stringsOf ts ++ unset (rest.length + 2))).bind (splitLast M src m tokens) =
        .ok (rstrArray (ts ++ cuts m src.chars (p + m) rest)) := by
  induction rest generalizing done p ts with
  | nil => exact splitLast_ok h hP (hfit p List.mem_cons_self) hts
  | cons n rest ih =>
    have hn := hfit n (List.mem_cons_of_mem p List.mem_cons_self)
    have hn' : n ≤ src.chars.length := by omega
    have hround := splitRound_ok (M := M) h hP hspaced.1 hn' (k := rest.length + 2) hts
    have hlen : done.length + 1 = (done ++ [p]).length := by simp
    rw [List.length_cons, List.range'_succ, forEach, show rest.length + 1 + 2 = rest.length + 2 + 1 by omega, hround]
    simp only [bind, Except.bind]
    rw [show done.length + 1 + 1 = (done ++ [p]).length + 1 by rw [← hlen]]
    have hP' : P = (done ++ [p]) ++ n :: rest := by rw [hP, List.append_assoc, List.singleton_append]
    refine (ih hP' hspaced.2 (fun q hq => hfit q (List.mem_cons_of_mem p hq)) ?_).trans ?_
    · rw [List.length_append, hts, ← hlen, List.length_singleton]
    · rw [cuts, List.append_assoc, List.singleton_append]

theorem splitTokens_ok (h : Positions tokens P) (hne : P ≠ []) (hspaced : Spaced m 0 P)
    (hfit : ∀ q ∈ P, q + m ≤ src.chars.length) :
    splitTokens M src m tokens = .ok (rstrArray (cuts m src.chars 0 P)) := by
  obtain ⟨p, rest, rfl⟩ := List.exists_cons_of_ne_nil hne
  have hlt := h.length_lt
  have hp := hfit p List.mem_cons_self
  have hnew : List.replicate (uint32 ((tokens.size : Int) + 1 + 1)).toNat (none : Option Obj) =
      stringsOf [] ++ unset (rest.length + 2 + 1) := by
    rw [h.size, List.length_cons, uint32_of_range (by omega) (by rw [List.length_cons] at hlt; omega)]
    rfl
  unfold splitTokens
  dsimp only
  rw [h.get (p := p) rfl, hnew]
  simp only [bind, Except.bind]
  rw [rstrSub_ok (by omega)]
  dsimp only
  rw [show setToken (stringsOf [] ++ unset (rest.length + 2 + 1)) 0 _ = _ from setToken_next [] (rest.length + 2) _,
    h.size, List.length_cons, Nat.add_sub_cancel]
  exact splitRounds_ok h (List.nil_append _).symm hspaced.2 hfit rfl

/-! ### Only matches that do not overlap -/

/-- The pieces that were copied have exact lengths. -/
theorem splitLast_returns (h : Positions tokens P) (hP : P = done ++ [p]) (hm : m < 9223372036854775808)
    (ret : List (Option Obj)) : (splitLast M src m tokens ret).Returns fun _ => p + m ≤ src.chars.length := by
  have hfits := src.fits
  have hsize : tokens.size = done.length + 1 := by rw [h.size, hP, List.length_append, List.length_singleton]
  have hp : P[done.length + 1 - 1]? = some p := by simp [hP]
  have hlt := h.lt p (List.mem_of_getElem? hp)
  unfold splitLast
  dsimp only
  rw [hsize, h.get hp, rstrLen_obj (Nat.zero_le _)]
  simp only [bind, Except.bind]
  rw [← Nat.cast_add, sizeT_eq, Nat.mod_eq_of_lt (by omega)]
  refine Returns.bind rstrSub_returns fun token hsub => ?_
  refine fun _ _ => ?_
  unfold sizeT at hsub
  omega

theorem splitRounds_returns (h : Positions tokens P) (hP : P = done ++ p :: rest) (hm : m < 9223372036854775808)
    (ret : List (Option Obj)) :
    ((forEach (splitRound M src m tokens) (List.range' (done.length + 1) rest.length) ret).bind
      (splitLast M src m tokens)).Returns fun _ =>
        Spaced m (p + m) rest ∧ ∀ q ∈ p :: rest, q + m ≤ src.chars.length := by
  have hfits := src.fits
  induction rest generalizing done p ret with
  | nil =>
    refine (splitLast_returns h hP hm ret).mono fun _ hle => ⟨trivial, fun q hq => ?_⟩
    rw [List.mem_singleton.mp hq]
    exact hle
  | cons n rest ih =>
    have hp : P[done.length + 1 - 1]? = some p := by simp [hP]
    have hnext : P[done.length + 1]? = some n := by simp [hP]
    have hlt := h.lt p (List.mem_of_getElem? hp)
    have hlt' := h.lt n (List.mem_of_getElem? hnext)
    have hlen : done.length + 1 = (done ++ [p]).length := by simp
    have hP' : P = (done ++ [p]) ++ n :: rest := by rw [hP, List.append_assoc, List.singleton_append]
    have hrest := ih hP'
    rw [List.length_cons, List.range'_succ, forEach, splitRound, h.get hp, h.get hnext]
    simp only [bind, Except.bind]
    rw [← Nat.cast_add, sizeT_eq, Nat.mod_eq_of_lt (by omega)]
    intro r hrun
    obtain ⟨ret₁, hround, hrun⟩ := of_bind_ok hrun
    obtain ⟨ret₂, hround, hmore⟩ := of_bind_ok hround
    obtain ⟨token, hsub, -⟩ := of_bind_ok hround
    rw [show done.length + 1 + 1 = (done ++ [p]).length + 1 by rw [← hlen]] at hmore
    have hstart := rstrSub_returns token hsub
    have hle : p + m ≤ n := by
      unfold sizeT at hstart
      omega
    obtain ⟨hspaced, hfit⟩ := hrest ret₂ r (by rw [hmore]; exact hrun)
    refine ⟨⟨hle, hspaced⟩, fun q hq => ?_⟩
    rcases List.mem_cons.mp hq with rfl | hq
    · have hn := hfit n List.mem_cons_self
      omega
    · exact hfit q hq

theorem splitTokens_returns (h : Positions tokens P) (hne : P ≠ []) (hm : m < 9223372036854775808) :
    (splitTokens M src m tokens).Returns fun _ => Spaced m 0 P ∧ ∀ q ∈ P, q + m ≤ src.chars.length := by
  obtain ⟨p, rest, rfl⟩ := List.exists_cons_of_ne_nil hne
  unfold splitTokens
  dsimp only
  refine Returns.bind_of_forall fun pos => Returns.bind_of_forall fun token => Returns.bind_of_forall fun ret => ?_
  rw [h.size, List.length_cons, Nat.add_sub_cancel]
  exact (splitRounds_returns h (List.nil_append _).symm hm ret).mono fun _ hr => ⟨⟨Nat.zero_le p, hr.1⟩, hr.2⟩

/-! ### The call -/

theorem found_lt : ∀ p ∈ found src delim, p < 2147483648 := by
  intro p hp
  have hint := (int32_range src.chars.length).2
  by_cases hpos : 0 < int32 delim.chars.length
  · rw [found_of_pos hpos] at hp
    have hlt := List.mem_range.mp (List.mem_filter.mp hp).1
    rw [CStr.counted, List.length_take] at hlt
    omega
  · rw [found_of_not_pos hpos] at hp
    exact absurd hp List.not_mem_nil

/-- What a search that ends has collected. -/
theorem positions_of_found (h : IntArray 10 27 tokens (toInts (found src delim))) :
    ∃ P, Positions tokens P ∧ P.length = (found src delim).length ∧
      ((found src delim).length ≤ 1342177280 → P = found src delim) ∧
      (1342177280 < (found src delim).length → ∃ i, 0 < i ∧ P[i]? = some 0) := by
  obtain ⟨P, hP, hlen, hmem, hfew⟩ := stored_toInts (10 * 2 ^ 27) (found src delim)
  have hrep := h.rep
  rw [hP] at hrep
  refine ⟨P, ⟨hrep, fun p hp => ?_⟩, hlen, fun hle => hfew (by omega), fun hmany => ?_⟩
  · rcases hmem p hp with hp | hzero
    · exact found_lt p hp
    · omega
  · have hlost := stored_lost (l := toInts (found src delim)) (b := 10 * 2 ^ 27) (t := 1342177279)
      (by rw [toInts_length]; omega) (by decide) (by decide)
    have hin : 1342177279 < P.length := by omega
    rw [hP, toInts, List.getElem?_map, List.getElem?_eq_getElem hin] at hlost
    have hzero : (P[1342177279] : Int) = 0 := Option.some.inj hlost
    refine ⟨1342177279, by omega, ?_⟩
    rw [List.getElem?_eq_getElem hin]
    exact congrArg some (by omega)

theorem rstrSplit_none (h : Halts (fun fuel => kmpSearch fuel src delim 0) fun tokens =>
      IntArray 10 27 tokens (toInts (found src delim))) (hnone : found src delim = []) :
    Halts (fun fuel => rstrSplit M fuel src delim) fun r => r = none := by
  simp only [rstrSplit, bind]
  refine Halts.bind h fun tokens htokens => ?_
  rw [htokens.size_eq, hnone]
  have hdone : ((rarrayRelease tokens).bind fun _ => (.ok none : Except Fault (Option (List (Option Obj))))).Succeeds
      fun r => r = none :=
    Succeeds.bind (rarrayRelease_ok htokens.rep) fun _ _ => Succeeds.ok rfl
  exact hdone.halts

theorem rstrSplit_some (h : Halts (fun fuel => kmpSearch fuel src delim 0) fun tokens =>
      IntArray 10 27 tokens (toInts (found src delim))) (hne : found src delim ≠ [])
    (hfew : (found src delim).length ≤ 1342177280) (hspaced : Spaced delim.chars.length 0 (found src delim))
    (hfit : ∀ q ∈ found src delim, q + delim.chars.length ≤ src.chars.length) :
    Halts (fun fuel => rstrSplit M fuel src delim) fun r =>
      r = some (rstrArray (cuts delim.chars.length src.chars 0 (found src delim))) := by
  simp only [rstrSplit, bind]
  refine Halts.bind h fun tokens htokens => ?_
  obtain ⟨P, hP, hlen, hsame, -⟩ := positions_of_found htokens
  rw [hsame hfew] at hP
  rw [if_neg (by rw [hP.size]; exact fun hzero => hne (List.length_eq_zero_iff.mp hzero)),
    rstrLen_obj (Nat.zero_le _)]
  simp only [Except.bind, Nat.sub_zero, splitTokens_ok hP hne hspaced hfit]
  have hdone : ((rarrayRelease tokens).bind fun _ => (.ok (some (rstrArray (cuts delim.chars.length src.chars 0
      (found src delim)))) : Except Fault (Option (List (Option Obj))))).Succeeds
      fun r => r = some (rstrArray (cuts delim.chars.length src.chars 0 (found src delim))) :=
    Succeeds.bind (rarrayRelease_ok hP.rep) fun _ _ => Succeeds.ok rfl
  exact hdone.halts

/-- A call that returns has found nothing, or occurrences that lie side by side in the source, and not too many. -/
theorem rstrSplit_returns (fuel : Nat) : (rstrSplit M fuel src delim).Returns fun _ => found src delim = [] ∨
    (found src delim).length ≤ 1342177280 ∧ Spaced delim.chars.length 0 (found src delim) ∧
      ∀ q ∈ found src delim, q + delim.chars.length ≤ src.chars.length := by
  have hfits := delim.fits
  intro r hrun
  simp only [rstrSplit, bind] at hrun
  obtain ⟨tokens, hsearch, hrun⟩ := of_bind_ok hrun
  obtain ⟨P, hP, hlen, hsame, hlost⟩ := positions_of_found (kmpSearch_returns fuel tokens hsearch).1
  by_cases hzero : tokens.size = 0
  · left
    rw [hP.size, hlen] at hzero
    exact List.length_eq_zero_iff.mp hzero
  · right
    have hne : P ≠ [] := by
      rintro rfl
      exact hzero hP.size
    rw [if_neg hzero, rstrLen_obj (Nat.zero_le _)] at hrun
    simp only [Except.bind, Nat.sub_zero] at hrun
    obtain ⟨ret, htokens, -⟩ := of_bind_ok hrun
    obtain ⟨hspaced, hfit⟩ := splitTokens_returns hP hne (by omega) ret htokens
    have hfew : (found src delim).length ≤ 1342177280 := by
      by_contra hmany
      obtain ⟨i, hi, hz⟩ := hlost (by omega)
      have hpos : 0 < delim.chars.length := by
        by_contra hnone
        rw [found_of_not_pos (by rw [show delim.chars.length = 0 by omega]; decide)] at hmany
        simp at hmany
      obtain ⟨hin, hget⟩ := List.getElem?_eq_some_iff.mp hz
      have hlt := List.pairwise_iff_getElem.mp (hspaced.sorted hpos) 0 i (by omega) hin hi
      omega
    rw [hsame hfew] at hspaced hfit
    exact ⟨hfew, hspaced, hfit⟩

/-! ### Splitting and concatenating -/

/-- The lengths of the pieces, as integers. -/
def subLens (delimLen srcLen : Int) : Int → List Int → List Int
  | start, [] => [srcLen - start]
  | start, p :: ps => (p - start) :: subLens delimLen srcLen (p + delimLen) ps

structure SplitLaw (M : Malloc) (src delim : CStr) : Prop where
  lengths : Halts (fun fuel => kmpSearch fuel src delim 0) fun tokens => tokens.ints ≠ [] →
    ∀ len ∈ subLens delim.chars.length src.chars.length 0 tokens.ints, 0 ≤ len ∧ len < 18446744073709551616
  pieces : Halts (fun fuel => rstrSplit M fuel src delim) fun r => (r = none ↔ ¬ delim.chars <:+: src.chars) ∧
    ∀ ret, r = some ret → ∃ ts, ret = rstrArray ts ∧ ts.length = (leftmost delim.chars src.chars).length + 1 ∧
      (∀ t ∈ ts, ¬ delim.chars <:+: t) ∧
      (rstrConcatArray M (some ret) (some delim) false).Succeeds fun dest => strAt dest 0 = .ok src.chars

theorem subLens_of_spaced {N : Nat} (hspaced : Spaced m n P) (hn : n ≤ N) (hfit : ∀ q ∈ P, q + m ≤ N) :
    ∀ len ∈ subLens m N n (toInts P), 0 ≤ len ∧ len ≤ N := by
  induction P generalizing n with
  | nil =>
    intro len hlen
    rw [List.mem_singleton.mp hlen]
    omega
  | cons p P ih =>
    have hp := hfit p List.mem_cons_self
    have hle := hspaced.1
    intro len hlen
    rcases List.mem_cons.mp hlen with heq | hlen
    · rw [show len = (p : Int) - n from heq]
      omega
    · refine ih hspaced.2 hp (fun q hq => hfit q (List.mem_cons_of_mem p hq)) len ?_
      rw [Nat.cast_add]
      exact hlen

/-- What is found leaves out no earlier occurrence. -/
theorem found_subset_visible (hlen : 0 < int32 delim.chars.length) {q : Nat} (hp : p ∈ found src delim) (hqp : q ≤ p)
    (hq : Agree delim.chars src.chars q delim.chars.length) : q ∈ found src delim := by
  have hle := int32_le delim.chars.length
  rw [found_of_pos hlen, CStr.counted, CStr.counted] at hp ⊢
  obtain ⟨k, hk, hk'⟩ : ∃ k, (int32 delim.chars.length).toNat = k ∧ 0 < k ∧ k ≤ delim.chars.length :=
    ⟨_, rfl, by omega, by omega⟩
  rw [hk] at hp ⊢
  generalize (int32 src.chars.length).toNat = n at hp ⊢
  have hcount : (delim.chars.take k).length = k := by
    rw [List.length_take]
    omega
  have hne : delim.chars.take k ≠ [] := List.ne_nil_of_length_pos (by omega)
  have hpin := occurrence_le hne hp
  rw [hcount, List.length_take] at hpin
  rw [mem_occurrences hne, hcount, agree_take (Nat.le_refl _)]
  intro t ht
  rw [List.getElem?_take_of_lt (by omega)]
  exact hq t (by omega)

theorem rstrArray_injective {ts ts' : List Obj} (h : rstrArray ts = rstrArray ts') : ts = ts' := by
  have hmap := List.append_cancel_right h
  refine List.map_injective_iff.mpr (fun t t' heq => ?_) hmap
  exact List.append_cancel_right (Option.some.inj heq)

theorem delimited_cuts_length {w s : Obj} (hspaced : Spaced w.length n P) (hn : n ≤ s.length)
    (hfit : ∀ q ∈ P, q + w.length ≤ s.length) :
    (delimited w (cuts w.length s n P)).length = s.length - n + w.length := by
  induction P generalizing n with
  | nil => simp [cuts, delimited]
  | cons p P ih =>
    have hp := hfit p List.mem_cons_self
    have hle := hspaced.1
    rw [cuts, delimited_cons, List.length_append, List.length_append,
      ih hspaced.2 hp fun q hq => hfit q (List.mem_cons_of_mem p hq), List.length_take, List.length_drop]
    omega

/-- The pieces between positions side by side are concatenated within bounds. -/
theorem concat_cuts (hspaced : Spaced delim.chars.length 0 P) (hfit : ∀ q ∈ P, q + delim.chars.length ≤ src.chars.length) :
    (rstrConcatArray M (some (rstrArray (cuts delim.chars.length src.chars 0 P))) (some delim) false).Succeeds
      fun dest => strAt dest 0 = .ok (delim.chars.intercalate (cuts delim.chars.length src.chars 0 P)) := by
  have hsrc := src.fits
  have hdelim := delim.fits
  have htotal : (delimited delim.chars (cuts delim.chars.length src.chars 0 P)).length < 18446744073709551615 := by
    rw [delimited_cuts_length hspaced (Nat.zero_le _) hfit]
    omega
  have htext : concatText delim.chars (cuts delim.chars.length src.chars 0 P) false =
      delim.chars.intercalate (cuts delim.chars.length src.chars 0 P) := by
    rw [concatText, if_neg (by simp), List.append_nil]
  rw [← htext]
  exact rstrConcatArray_spec (cuts_noNul src delim.chars.length 0 P) (Or.inl (cuts_ne_nil _ _ _ _)) htotal

/-- The last piece begins behind every position. -/
theorem cuts_last (m : Nat) (s : Obj) (n : Nat) (P : List Nat) :
    ∃ k, s.drop k ∈ cuts m s n P ∧ (k = n ∨ ∃ q ∈ P, k = q + m) := by
  induction P generalizing n with
  | nil => exact ⟨n, List.mem_singleton_self _, Or.inl rfl⟩
  | cons p P ih =>
    obtain ⟨k, hk, hfrom⟩ := ih (p + m)
    refine ⟨k, List.mem_cons_of_mem _ hk, Or.inr ?_⟩
    rcases hfrom with rfl | ⟨q, hq, rfl⟩
    · exact ⟨p, List.mem_cons_self, rfl⟩
    · exact ⟨q, List.mem_cons_of_mem p hq, rfl⟩

theorem SplitLaw.found_eq (hlaw : SplitLaw M src delim) (hne : delim.chars ≠ []) :
    found src delim = leftmost delim.chars src.chars ∧ (found src delim).length ≤ 1342177280 := by
  have hpos := List.length_pos_iff.mpr hne
  have hsearch := (hlaw.lengths.returns kmpSearch_returns).mono fun _ h => h.2.1
  obtain ⟨r, ⟨hnone, htokens⟩, hfits⟩ := (hlaw.pieces.returns rstrSplit_returns).exists
  by_cases hempty : found src delim = []
  · obtain ⟨r', ⟨hnone', -⟩, rfl⟩ := (hlaw.pieces.and (rstrSplit_none hsearch hempty)).exists
    rw [hempty, (leftmost_eq_nil hne).mpr (hnone'.mp rfl)]
    exact ⟨rfl, Nat.zero_le _⟩
  · obtain ⟨hfew, hspaced, hfit⟩ := hfits.resolve_left hempty
    obtain ⟨r', ⟨-, htokens'⟩, rfl⟩ := (hlaw.pieces.and (rstrSplit_some hsearch hempty hfew hspaced hfit)).exists
    obtain ⟨ts, hts, hcount, hclean, hconcat⟩ := htokens' _ rfl
    obtain rfl := rstrArray_injective hts
    refine ⟨?_, hfew⟩
    have hlenpos : 0 < int32 delim.chars.length := by
      by_contra hneg
      exact hempty (found_of_not_pos hneg)
    have hsrc : delim.chars.intercalate (cuts delim.chars.length src.chars 0 (found src delim)) = src.chars := by
      obtain ⟨dest, hrun, htext⟩ := hconcat
      have htext' := (concat_cuts hspaced hfit).returns dest hrun
      exact (Except.ok.inj (htext.symm.trans htext')).symm
    have hagree : ∀ q ∈ found src delim, Agree delim.chars src.chars q delim.chars.length :=
      agree_of_intercalate hspaced hsrc
    have hvisible : ∀ p ∈ occurrences delim.chars src.chars, (∃ q ∈ found src delim, p ≤ q) → p ∈ found src delim := by
      rintro p hp ⟨q, hq, hpq⟩
      exact found_subset_visible hlenpos hq hpq ((mem_occurrences hne).mp hp)
    refine (greedy_eq_of_spaced hpos (occurrences_sorted _ _) hspaced (fun q hq => (mem_occurrences hne).mpr (hagree q hq))
      (fun p hp hex _ => hvisible p hp hex) fun p hp _ => ?_).symm
    obtain ⟨k, hk, hfrom⟩ := cuts_last delim.chars.length src.chars 0 (found src delim)
    have hlast := hclean _ hk
    rw [contains_iff hne, not_not] at hlast
    have hpk : p < k := by
      by_contra hkp
      have hin : p - k ∈ occurrences delim.chars (src.chars.drop k) := by
        rw [mem_occurrences_drop hne, Nat.add_sub_cancel' (Nat.le_of_not_lt hkp)]
        exact hp
      rw [hlast] at hin
      exact absurd hin List.not_mem_nil
    rcases hfrom with rfl | ⟨q, hq, rfl⟩
    · omega
    · exact ⟨q, hq, hpk⟩

theorem splitLaw_of_found (hne : delim.chars ≠ []) (hends : Halts (fun fuel => kmpSearch fuel src delim 0) fun _ => True)
    (hfound : found src delim = leftmost delim.chars src.chars) (hfew : (found src delim).length ≤ 1342177280) :
    SplitLaw M src delim := by
  have hsearch := (hends.returns kmpSearch_returns).mono fun _ h => h.2.1
  have hspaced : Spaced delim.chars.length 0 (found src delim) := by
    rw [hfound]
    exact greedy_spaced _ _ _
  have hfit : ∀ q ∈ found src delim, q + delim.chars.length ≤ src.chars.length := by
    intro q hq
    rw [hfound] at hq
    exact occurrence_le hne ((mem_occurrences hne).mpr (leftmost_agree hne q hq))
  constructor
  · refine hsearch.mono fun tokens htokens _ len hlen => ?_
    have hsize := src.fits
    rw [htokens.ints_eq, stored_of_le (by rw [toInts_length]; omega)] at hlen
    have hrange := subLens_of_spaced hspaced (Nat.zero_le _) hfit len hlen
    omega
  · by_cases hempty : found src delim = []
    · refine (rstrSplit_none hsearch hempty).mono fun r hr => ⟨?_, ?_⟩
      · rw [← leftmost_eq_nil hne, ← hfound]
        exact iff_of_true hr hempty
      · intro ret hret
        rw [hr] at hret
        cases hret
    · refine (rstrSplit_some hsearch hempty hfew hspaced hfit).mono fun r hr => ⟨?_, ?_⟩
      · rw [← leftmost_eq_nil hne, ← hfound]
        refine iff_of_false ?_ hempty
        rw [hr]
        exact Option.some_ne_none _
      · intro ret hret
        obtain rfl := Option.some.inj (hr.symm.trans hret)
        refine ⟨_, rfl, by rw [cuts_length, hfound], ?_, ?_⟩
        · rw [hfound]
          exact pieces_not_contains hne src.chars
        · refine (concat_cuts hspaced hfit).mono fun dest hdest => ?_
          rw [hdest, hfound]
          exact congrArg Except.ok (intercalate_pieces hne src.chars)

/-- The law holds just when the search finds the leftmost occurrences that do not overlap, and at most 10 * 2^27. Of
strings whose length an `int` counts it finds them just when no two occurrences overlap. -/
theorem splitLaw_iff (M : Malloc) (src delim : CStr) (hne : delim.chars ≠ [])
    (hends : Halts (fun fuel => kmpSearch fuel src delim 0) fun _ => True) :
    (SplitLaw M src delim ↔
      found src delim = leftmost delim.chars src.chars ∧ (found src delim).length ≤ 1342177280) ∧
    (src.chars.length < 2147483648 → delim.chars.length < 2147483648 →
      (found src delim = leftmost delim.chars src.chars ↔
        (occurrences delim.chars src.chars).Pairwise fun p q => p + delim.chars.length ≤ q)) := by
  refine ⟨⟨fun h => h.found_eq hne, fun h => splitLaw_of_found hne hends h.1 h.2⟩, fun hsrc hdelim => ?_⟩
  have hpos := List.length_pos_iff.mpr hne
  rw [found_of_pos (by rw [int32_of_lt hdelim]; omega), counted_of_lt hsrc, counted_of_lt hdelim]
  exact leftmost_eq_occurrences

/-- "a,b" at ",". -/
theorem splitLaw_iff_comma :
    (SplitLaw Malloc.zeros ⟨[97, 44, 98], by decide, by decide⟩ ⟨[44], by decide, by decide⟩ ↔
      found ⟨[97, 44, 98], by decide, by decide⟩ ⟨[44], by decide, by decide⟩ = leftmost [44] [97, 44, 98] ∧
        (found ⟨[97, 44, 98], by decide, by decide⟩ ⟨[44], by decide, by decide⟩).length ≤ 1342177280) ∧
    (([97, 44, 98] : Obj).length < 2147483648 → ([44] : Obj).length < 2147483648 →
      (found ⟨[97, 44, 98], by decide, by decide⟩ ⟨[44], by decide, by decide⟩ = leftmost [44] [97, 44, 98] ↔
        (occurrences [44] ([97, 44, 98] : Obj)).Pairwise fun p q => p + 1 ≤ q)) :=
  splitLaw_iff Malloc.zeros ⟨[97, 44, 98], by decide, by decide⟩ ⟨[44], by decide, by decide⟩ (by decide)
    ((kmpSearch_halts (by decide) (by decide)).mono fun _ _ => trivial)

/-- "aaa" at "aa": the search ends with 0 and 1. -/
theorem split_overlapping : ¬ ∀ (M : Malloc) (src delim : CStr), delim.chars ≠ [] →
    (Halts (fun fuel => kmpSearch fuel src delim 0) fun _ => True) → SplitLaw M src delim := by
  intro h
  have hends : Halts (fun fuel => kmpSearch fuel ⟨[97, 97, 97], by decide, by decide⟩ ⟨[97, 97], by decide, by decide⟩ 0)
      fun _ => True := (kmpSearch_halts (by decide) (by decide)).mono fun _ _ => trivial
  have hlaw := h Malloc.zeros ⟨[97, 97, 97], by decide, by decide⟩ ⟨[97, 97], by decide, by decide⟩ (by decide) hends
  have hfound := (hlaw.found_eq (by decide)).1
  rw [found_of_pos (by decide)] at hfound
  exact absurd hfound (by decide)

end Funra
