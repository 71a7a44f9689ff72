import Funra.Rstring.Repl
import Funra.Rstring.Split

/-!
# Which searches end

`rstr_last_index` searches again one byte behind each occurrence. With an empty key it finds one at the terminator
too, and the next search begins behind it. `rstr_split` ends when `_kmp_search` does (`kmpSearch_ends_iff`) and no piece
reaches behind the source (`rstrSplit_ends_iff`).
-/

namespace Funra

open Mem CInt Except Words

/-- `strrchr`, for a character that is not the terminator. -/
def strrchr (mem : Obj) (c : UInt8) : Except Fault (Option Nat) :=
  (strAt mem 0).map fun chars => (occurrences [c] chars).getLast?

/-- A key that is one character. -/
def lastChar (src : CStr) (c : UInt8) : Except Fault Int := do
  match ← strrchr src.obj c with
  | some last => return int32 last
  | none => return -1

/-- `last - src` has 64 bits. -/
def lastIndexRound (src key : CStr) (s : Int × Option Nat) : Except Fault ((Int × Option Nat) ⊕ Int) :=
  match s.2 with
  | none => .ok (.inr s.1)
  | some last => do return .inl (int32 last, ← strstr src.obj (last + 1) key)

def lastIndexLen (fuel : Nat) (src key : CStr) (keyLen : Int) : Except Fault Int := do
  if keyLen = 1 then lastChar src (← byteAt key.obj 0)
  else loop .outOfFuel (lastIndexRound src key) fuel (-1, ← strstr src.obj 0 key)

def rstrLastIndex (fuel : Nat) (src key : CStr) : Except Fault Int := do
  lastIndexLen fuel src key (int32 (← rstrLen key.obj 0))

variable {M : Malloc} {src key : CStr} {newStr : Option CStr} {text : Obj} {i j : Nat}

/-! ### The last occurrence -/

theorem strstr_next (hkey : key.chars ≠ []) {n : Nat} (hn : n ≤ src.chars.length) :
    (strstr src.obj n key).Succeeds fun last => ∀ p, last = some p → n ≤ p ∧ p < src.chars.length := by
  rw [strstr_obj hn, search_drop hkey, Option.map_map]
  refine Succeeds.ok fun p hp => ?_
  obtain ⟨q, hq, rfl⟩ := Option.map_eq_some_iff.mp hp
  have hle : n ≤ q := by simpa using List.find?_some hq
  have hin := occurrence_le hkey (List.mem_of_find?_eq_some hq)
  have hpos := List.length_pos_iff.mpr hkey
  rw [Function.comp_apply]
  omega

theorem lastChar_succeeds (src : CStr) (c : UInt8) : (lastChar src c).Succeeds fun _ => True := by
  have hchar : (strrchr src.obj c).Succeeds fun _ => True := by
    rw [strrchr, strAt_obj (Nat.zero_le _)]
    exact Succeeds.ok trivial
  refine Succeeds.bind hchar fun last _ => ?_
  cases last with
  | none => exact Succeeds.ok trivial
  | some last => exact Succeeds.ok trivial

/-- Each search begins behind the last occurrence, and no occurrence is at the terminator. -/
theorem lastIndexRounds_halt (hkey : key.chars ≠ []) {s : Int × Option Nat} (h : ∀ p, s.2 = some p → p < src.chars.length) :
    Halts (fun fuel => loop .outOfFuel (lastIndexRound src key) fuel s) fun _ => True := by
  refine Halts.loop (I := fun s => ∀ p, s.2 = some p → p < src.chars.length)
    (μ := fun s => s.2.elim 0 fun p => src.chars.length - p) ?_ h
  rintro ⟨index, last⟩ hlast
  cases last with
  | none => exact Succeeds.ok trivial
  | some p =>
    have hp := hlast p rfl
    refine Succeeds.bind (strstr_next hkey hp) fun last' hnext => Succeeds.ok ⟨fun q hq => (hnext q hq).2, ?_⟩
    cases last' with
    | none => exact Nat.sub_pos_of_lt hp
    | some q =>
      have hq := hnext q rfl
      change src.chars.length - q < src.chars.length - p
      omega

theorem lastIndexLen_halts (hkey : key.chars ≠ []) (keyLen : Int) :
    Halts (fun fuel => lastIndexLen fuel src key keyLen) fun _ => True := by
  have hpos := List.length_pos_iff.mpr hkey
  simp only [lastIndexLen, bind]
  by_cases hone : keyLen = 1
  · simp only [if_pos hone]
    rw [show byteAt key.obj 0 = .ok key.chars[0] from CStr.byteAt_lt hpos, ok_bind]
    exact (lastChar_succeeds src _).halts
  · simp only [if_neg hone]
    refine Halts.bind (strstr_next hkey (Nat.zero_le _)).halts fun last hlast => ?_
    exact lastIndexRounds_halt hkey fun p hp => (hlast p hp).2

theorem rstrLastIndex_eq (fuel : Nat) (src key : CStr) :
    rstrLastIndex fuel src key = lastIndexLen fuel src key (int32 key.chars.length) := by
  simp only [rstrLastIndex, bind]
  rw [rstrLen_obj (Nat.zero_le _), ok_bind, Nat.sub_zero]

theorem rstrLastIndex_halts (hkey : key.chars ≠ []) : Halts (fun fuel => rstrLastIndex fuel src key) fun _ => True := by
  simp only [rstrLastIndex_eq]
  exact lastIndexLen_halts hkey _

/-- Behind the terminator there is nothing to search. -/
theorem lastIndexLen_nil (hkey : key.chars = []) {keyLen : Int} (hlen : keyLen ≠ 1) :
    ¬ Halts (fun fuel => lastIndexLen fuel src key keyLen) fun _ => True := by
  have hnext : ∀ {n : Nat}, n ≤ src.chars.length → strstr src.obj n key = .ok (some n) := by
    intro n hn
    rw [strstr_obj hn, hkey, search_nil]
    rfl
  simp only [lastIndexLen, bind, if_neg hlen, hnext (Nat.zero_le _), ok_bind]
  refine not_halts_loop (I := fun s => ∃ p, s.2 = some p) ?_ ⟨0, rfl⟩
  rintro ⟨index, last⟩ ⟨p, rfl⟩
  unfold lastIndexRound
  dsimp only
  by_cases hp : p + 1 ≤ src.chars.length
  · rw [hnext hp]
    exact Returns.ok ⟨p + 1, rfl⟩
  · rw [strstr, strAt_beyond (by rw [CStr.obj_length]; omega)]
    exact Returns.error

theorem rstrLastIndex_nil (hkey : key.chars = []) : ¬ Halts (fun fuel => rstrLastIndex fuel src key) fun _ => True := by
  simp only [rstrLastIndex_eq, hkey]
  exact lastIndexLen_nil hkey (by decide)

/-! ### A length that is counted as 0 or less -/

/-- The text is cut into prefixes of the key, each as long as possible, of which none is empty. The first one has
`j` characters already. -/
def Restarts (w : Obj) : Nat → Obj → Prop
  | _, [] => True
  | j, c :: text => if w[j]? = some c then Restarts w (j + 1) text
    else j ≠ 0 ∧ w[0]? = some c ∧ Restarts w 1 text

theorem restarts_again {w : Obj} {c : UInt8} (hj : j ≠ 0) (hne : w[j]? ≠ some c) :
    Restarts w j (c :: text) ↔ Restarts w 0 (c :: text) := by
  rw [Restarts, if_neg hne, Restarts]
  by_cases hfirst : w[0]? = some c
  · rw [if_pos hfirst]
    exact ⟨fun h => h.2.2, fun h => ⟨hj, hfirst, h⟩⟩
  · rw [if_neg hfirst]
    exact ⟨fun h => absurd h.2.1 hfirst, fun h => absurd rfl h.1⟩

theorem restarts_nil (w : Obj) (j : Nat) : Restarts w j [] := trivial

attribute [irreducible] Restarts

/-- The terminator is compared like a character, and differs from every one. -/
theorem byteAt_key (hj : j ≤ key.chars.length) : ∃ b, byteAt key.obj j = .ok b ∧
    ∀ c, c ≠ 0 → (b = c ↔ key.chars[j]? = some c) := by
  rcases Nat.lt_or_eq_of_le hj with hlt | rfl
  · refine ⟨key.chars[j], CStr.byteAt_lt hlt, fun c _ => ?_⟩
    rw [List.getElem?_eq_getElem hlt, Option.some_inj]
  · refine ⟨0, byteAt_eq key.obj_get_end, fun c hc => ?_⟩
    rw [List.getElem?_eq_none (Nat.le_refl _)]
    exact iff_of_false (fun h => hc h.symm) (fun h => by cases h)

/-- The state at a character of the text, with `j` characters of the key before it. -/
structure KmpRun (key : CStr) (s : KmpState) (i j : Nat) : Prop where
  i_eq : s.i = i
  j_eq : s.j = j
  count : s.count = 0
  le : j ≤ key.chars.length

variable {L n : Int} {array : Rarray Int} {s : KmpState} {t : Obj}

/-- `t` is what the length of the source counts. -/
theorem counted_get (ht : t = src.chars.take n.toNat) (hi : i < t.length) :
    byteAt src.obj i = .ok t[i] ∧ t[i] ≠ 0 ∧ (i : Int) < n := by
  subst ht
  have hin : i < src.chars.length := Nat.lt_of_lt_of_le hi (List.length_take_le' _ _)
  have hget : (src.chars.take n.toNat)[i] = src.chars[i] := List.getElem_take
  rw [hget]
  refine ⟨CStr.byteAt_lt hin, fun hzero => src.noNul (hzero ▸ List.getElem_mem hin), ?_⟩
  rw [List.length_take] at hi
  omega

/-- A round after a match, when no entry of the key moves `j` but to 0. -/
theorem kmpSearchRound_match (hL : L ≤ 0) (hzero : ∀ index, rarrayAt array index = .ok 0) (h : KmpRun key s i j)
    (ht : t = src.chars.take n.toNat) (hn : n ≤ src.chars.length) (hi : i < t.length)
    (heq : key.chars[j]? = some t[i]) :
    ∃ s' j', kmpSearchRound src key L n array s = .ok (.inl s') ∧ KmpRun key s' (i + 1) j' ∧
      (j' = j + 1 ∨ j' = 0 ∧ ∃ hnext : i + 1 < t.length, key.chars[j + 1]? ≠ some t[i + 1]) := by
  obtain ⟨hbyte, hne, hlt⟩ := counted_get ht hi
  obtain ⟨b, hb, hbc⟩ := byteAt_key h.le
  have hj : j < key.chars.length := (List.getElem?_eq_some_iff.mp heq).1
  have hcount := h.count
  unfold kmpSearchRound
  rw [h.i_eq, h.j_eq, if_pos hlt, hb, hbyte]
  simp only [bind, ok_bind]
  rw [if_pos ((hbc _ hne).mpr heq)]
  unfold kmpSearchRest
  dsimp only
  rw [if_neg (by omega)]
  by_cases hnext : i + 1 < t.length
  · obtain ⟨hbyte', hne', hlt'⟩ := counted_get ht hnext
    obtain ⟨b', hb', hbc'⟩ := byteAt_key hj
    rw [if_pos (by omega), show (j : Int) + 1 = (j + 1 : Nat) from rfl, show (i : Int) + 1 = (i + 1 : Nat) from rfl, hb', hbyte']
    simp only [bind, ok_bind]
    by_cases hsame : key.chars[j + 1]? = some t[i + 1]
    · rw [if_neg (not_not.mpr ((hbc' _ hne').mpr hsame)), hcount]
      exact ⟨_, j + 1, rfl, ⟨rfl, rfl, rfl, hj⟩, Or.inl rfl⟩
    · rw [if_pos (fun hbt => hsame ((hbc' _ hne').mp hbt)), if_pos (by omega), hzero, hcount]
      exact ⟨_, 0, rfl, ⟨rfl, rfl, rfl, Nat.zero_le _⟩, Or.inr ⟨rfl, hnext, hsame⟩⟩
  · have hend : t.length = n.toNat := by
      rw [ht, List.length_take]
      omega
    rw [if_neg (by omega), hcount]
    exact ⟨_, j + 1, rfl, ⟨rfl, rfl, rfl, hj⟩, Or.inl rfl⟩

/-- A round after a mismatch behind a partial match, which searches again from there. -/
theorem kmpSearchRound_fall (hL : L ≤ 0) (hzero : ∀ index, rarrayAt array index = .ok 0) (h : KmpRun key s i j)
    (ht : t = src.chars.take n.toNat) (hi : i < t.length) (hne : key.chars[j]? ≠ some t[i]) (hj : j ≠ 0) :
    kmpSearchRound src key L n array s = .ok (.inl ⟨i, 0, 0, s.ret⟩) := by
  obtain ⟨hbyte, hnul, hlt⟩ := counted_get ht hi
  obtain ⟨b, hb, hbc⟩ := byteAt_key h.le
  have hdiff : b ≠ t[i] := fun heq => hne ((hbc _ hnul).mp heq)
  unfold kmpSearchRound
  rw [h.i_eq, h.j_eq, if_pos hlt, hb, hbyte]
  simp only [bind, ok_bind]
  rw [if_neg hdiff]
  unfold kmpSearchRest
  rw [h.i_eq, h.j_eq, if_neg (by omega), if_pos hlt, hb, hbyte]
  simp only [bind, ok_bind]
  rw [if_pos hdiff, if_pos (by omega), hzero, h.count]
  rfl

/-- A round after a mismatch at the first character. -/
theorem kmpSearchRound_first (h : KmpRun key s i 0) (ht : t = src.chars.take n.toNat) (hi : i < t.length)
    (hne : key.chars[0]? ≠ some t[i]) (hL : L < 0) :
    kmpSearchRound src key L n array s = .ok (.inl ⟨(i + 1 : Nat), 0, 0, s.ret⟩) := by
  obtain ⟨hbyte, hnul, hlt⟩ := counted_get ht hi
  obtain ⟨b, hb, hbc⟩ := byteAt_key h.le
  have hdiff : b ≠ t[i] := fun heq => hne ((hbc _ hnul).mp heq)
  unfold kmpSearchRound
  rw [h.i_eq, h.j_eq, if_pos hlt, hb, hbyte]
  simp only [bind, ok_bind]
  rw [if_neg hdiff]
  unfold kmpSearchRest
  rw [h.i_eq, h.j_eq, if_neg (by omega), if_pos hlt, hb, hbyte]
  simp only [bind, ok_bind]
  rw [if_pos hdiff, if_neg (by omega), h.count]
  rfl

/-- A length of 0 is reached at once: a position is added, and the search stays where it is. -/
theorem kmpSearchRound_stays (hzero : ∀ index, rarrayAt array index = .ok 0) (h : KmpRun key s i 0)
    (ht : t = src.chars.take n.toNat) (hi : i < t.length) (hne : key.chars[0]? ≠ some t[i]) :
    (kmpSearchRound src key 0 n array s).Returns fun next => ∃ ret, next = .inl ⟨i, 0, 0, ret⟩ := by
  obtain ⟨hbyte, hnul, hlt⟩ := counted_get ht hi
  obtain ⟨b, hb, hbc⟩ := byteAt_key h.le
  have hdiff : b ≠ t[i] := fun heq => hne ((hbc _ hnul).mp heq)
  unfold kmpSearchRound
  rw [h.i_eq, h.j_eq, if_pos hlt, hb, hbyte]
  simp only [bind, ok_bind]
  rw [if_neg hdiff]
  unfold kmpSearchRest
  rw [h.i_eq, h.j_eq, if_pos (by rfl), h.count]
  refine Returns.bind_of_forall fun ret => ?_
  rw [if_neg (by omega), if_neg (by omega)]
  simp only [bind, hzero, ok_bind]
  exact Returns.ok ⟨ret, rfl⟩

theorem drop_restarts {w : Obj} (hi : i < t.length) : Restarts w j (t.drop i) ↔ Restarts w j (t[i] :: t.drop (i + 1)) := by
  rw [List.drop_eq_getElem_cons hi]

/-- A match goes on with what the text and the key still have in common. -/
theorem restarts_match {w : Obj} {j' : Nat} (hi : i < t.length) (heq : w[j]? = some t[i])
    (hj : j' = j + 1 ∨ j' = 0 ∧ ∃ hnext : i + 1 < t.length, w[j + 1]? ≠ some t[i + 1]) :
    Restarts w j (t.drop i) ↔ Restarts w j' (t.drop (i + 1)) := by
  rw [drop_restarts hi, Restarts, if_pos heq]
  rcases hj with rfl | ⟨rfl, hnext, hne⟩
  · exact Iff.rfl
  · rw [drop_restarts hnext, drop_restarts hnext]
    exact restarts_again (Nat.succ_ne_zero j) hne

theorem counted_length (ht : t = src.chars.take n.toNat) (hn : n ≤ src.chars.length) : t.length = n.toNat := by
  rw [ht, List.length_take]
  omega

/-- What a search for a key whose length is counted as 0 or less goes through. -/
theorem position_measure {n i : Nat} (hi : i < n) (j j' : Nat) : 2 * (n - (i + 1)) + min 1 j' < 2 * (n - i) + min 1 j := by
  omega

theorem kmpSearchRounds_halt (hL : L ≤ 0) (hzero : ∀ index, rarrayAt array index = .ok 0)
    (ht : t = src.chars.take n.toNat) (hn : n ≤ src.chars.length) (h : KmpRun key s i j)
    (hgo : L = 0 → Restarts key.chars j (t.drop i)) :
    Halts (fun fuel => loop .outOfFuel (kmpSearchRound src key L n array) fuel s) fun r => r.1 = true := by
  refine Halts.loop (I := fun s => ∃ i j, KmpRun key s i j ∧ (L = 0 → Restarts key.chars j (t.drop i)))
    (μ := fun s => 2 * (t.length - s.i.toNat) + min 1 s.j.toNat) ?_ ⟨i, j, h, hgo⟩
  rintro s ⟨i, j, h, hgo⟩
  have hlen := counted_length ht hn
  have hi := h.i_eq
  have hj := h.j_eq
  by_cases hin : i < t.length
  · by_cases heq : key.chars[j]? = some t[i]
    · obtain ⟨s', j', hround, h', hj'⟩ := kmpSearchRound_match hL hzero h ht hn hin heq
      rw [hround]
      refine Succeeds.ok ⟨⟨i + 1, j', h', fun hzero => (restarts_match hin heq hj').mp (hgo hzero)⟩, ?_⟩
      rw [hi, h'.i_eq, Int.toNat_natCast, Int.toNat_natCast]
      exact position_measure hin _ _
    · by_cases hj0 : j = 0
      · subst hj0
        have hneg : L < 0 := by
          refine lt_of_le_of_ne hL fun hzero => ?_
          have hfalse := hgo hzero
          rw [drop_restarts hin, Restarts, if_neg heq] at hfalse
          exact hfalse.1 rfl
        rw [kmpSearchRound_first h ht hin heq hneg]
        refine Succeeds.ok ⟨⟨i + 1, 0, ⟨rfl, rfl, rfl, Nat.zero_le _⟩, fun hzero => absurd hzero hneg.ne⟩, ?_⟩
        dsimp only
        rw [hi, Int.toNat_natCast, Int.toNat_natCast]
        exact position_measure hin _ _
      · rw [kmpSearchRound_fall hL hzero h ht hin heq hj0]
        refine Succeeds.ok ⟨⟨i, 0, ⟨rfl, rfl, rfl, Nat.zero_le _⟩, fun hzero => ?_⟩, ?_⟩
        · rw [drop_restarts hin, ← restarts_again hj0 heq, ← drop_restarts hin]
          exact hgo hzero
        · dsimp only
          omega
  · unfold kmpSearchRound
    rw [if_neg (by omega)]
    exact Succeeds.ok rfl

/-- A length of 0 is found again and again where the text cannot be cut. -/
theorem not_kmpSearchRounds_halt (hzero : ∀ index, rarrayAt array index = .ok 0)
    (ht : t = src.chars.take n.toNat) (hn : n ≤ src.chars.length) (h : KmpRun key s i j)
    (hstuck : ¬ Restarts key.chars j (t.drop i)) :
    ¬ Halts (fun fuel => loop .outOfFuel (kmpSearchRound src key 0 n array) fuel s) fun _ => True := by
  refine not_halts_loop (I := fun s => ∃ i j, KmpRun key s i j ∧ ¬ Restarts key.chars j (t.drop i)) ?_ ⟨i, j, h, hstuck⟩
  rintro s ⟨i, j, h, hstuck⟩
  have hin : i < t.length := by
    by_contra hge
    rw [List.drop_eq_nil_of_le (not_lt.mp hge)] at hstuck
    exact hstuck (restarts_nil _ _)
  by_cases heq : key.chars[j]? = some t[i]
  · obtain ⟨s', j', hround, h', hj'⟩ := kmpSearchRound_match (Int.le_refl 0) hzero h ht hn hin heq
    rw [hround]
    exact Returns.ok ⟨i + 1, j', h', fun hgo => hstuck ((restarts_match hin heq hj').mpr hgo)⟩
  · by_cases hj0 : j = 0
    · subst hj0
      refine (kmpSearchRound_stays hzero h ht hin heq).mono ?_
      rintro next ⟨ret, rfl⟩
      exact ⟨i, 0, ⟨rfl, rfl, rfl, Nat.zero_le _⟩, hstuck⟩
    · rw [kmpSearchRound_fall (Int.le_refl 0) hzero h ht hin heq hj0]
      refine Returns.ok ⟨i, 0, ⟨rfl, rfl, rfl, Nat.zero_le _⟩, ?_⟩
      rwa [drop_restarts hin, ← restarts_again hj0 heq, ← drop_restarts hin]

theorem kmpRun_start (key : CStr) (ret : Rarray Int) : KmpRun key ⟨0, 0, 0, ret⟩ 0 0 :=
  ⟨rfl, rfl, rfl, Nat.zero_le _⟩

theorem kmpSearch_restarts (hlen : int32 key.chars.length = 0) {fuel : Nat} {ret : Rarray Int}
    (h : kmpSearch fuel src key 0 = .ok ret) : Restarts key.chars 0 src.counted := by
  by_contra hstuck
  have hinit : (kmpNextArrayInit fuel key (int32 key.chars.length) (rarrayCreate 4 30)).Returns _ :=
    kmpNextArrayInit_returns (int32_le key.chars.length) (int32_range _).2 fuel
  simp only [kmpSearch, bind] at h
  obtain ⟨array, hkey, h⟩ := of_bind_ok h
  obtain ⟨r, hloop, -⟩ := of_bind_ok h
  have htable := (hinit array hkey).1
  rw [hlen] at htable hloop
  rw [← List.drop_zero (l := src.counted)] at hstuck
  exact not_kmpSearchRounds_halt (t := src.counted) (htable.zero (Int.le_refl 0)) rfl (int32_le _) (kmpRun_start key _)
    hstuck ⟨r, ⟨fuel, fun more hle => loop_mono hloop hle⟩, trivial⟩

theorem kmpSearch_halts_of_restarts (hlen : int32 key.chars.length ≤ 0) (hstraight : Straight key.counted)
    (hgo : int32 key.chars.length = 0 → Restarts key.chars 0 src.counted) :
    Halts (fun fuel => kmpSearch fuel src key 0) fun _ => True := by
  have hinit := kmpNextArrayInit_halts (int32_le key.chars.length) (int32_range _).2 hstraight
  rw [← List.drop_zero (l := src.counted)] at hgo
  simp only [kmpSearch, bind]
  refine Halts.bind hinit fun array htable => ?_
  refine Halts.bind (kmpSearchRounds_halt hlen (htable.zero hlen) rfl (int32_le _) (kmpRun_start key _) hgo) ?_
  rintro ⟨ended, ret⟩ hended
  obtain rfl : ended = true := hended
  obtain ⟨d, -, harray, -⟩ := htable
  have hdone : ((rarrayRelease array).bind fun _ => (.ok ret : Except Fault (Rarray Int))).Succeeds fun _ => True :=
    Succeeds.bind (rarrayRelease_ok harray.rep) fun _ _ => Succeeds.ok trivial
  exact hdone.halts

/-- A search ends when its key is straight and, where its length is counted as 0, the text is cut into prefixes of it. -/
theorem kmpSearch_ends_iff : Halts (fun fuel => kmpSearch fuel src key 0) (fun _ => True) ↔
    Straight key.counted ∧ (int32 key.chars.length = 0 → Restarts key.chars 0 src.counted) := by
  constructor
  · rintro ⟨ret, ⟨fuel, hrun⟩, -⟩
    have hend := hrun fuel (Nat.le_refl fuel)
    exact ⟨(kmpSearch_returns fuel ret hend).2, fun hlen => kmpSearch_restarts hlen hend⟩
  · rintro ⟨hstraight, hgo⟩
    rcases Int.lt_or_le 0 (int32 key.chars.length) with hpos | hlen
    · exact (kmpSearch_halts hpos hstraight).mono fun _ _ => trivial
    · exact kmpSearch_halts_of_restarts hlen hstraight hgo

/-- A split ends when the search does, and what it finds lies side by side in the source. -/
theorem rstrSplit_ends_iff : Halts (fun fuel => rstrSplit M fuel src key) (fun _ => True) ↔
    (Halts (fun fuel => kmpSearch fuel src key 0) fun _ => True) ∧ (found src key = [] ∨
      (found src key).length ≤ 1342177280 ∧ Spaced key.chars.length 0 (found src key) ∧
        ∀ q ∈ found src key, q + key.chars.length ≤ src.chars.length) := by
  constructor
  · intro h
    refine ⟨?_, ((h.returns rstrSplit_returns).exists).elim fun _ h => h.2⟩
    obtain ⟨r, ⟨fuel, hrun⟩, -⟩ := h
    have hend := hrun fuel (Nat.le_refl fuel)
    simp only [rstrSplit, bind] at hend
    obtain ⟨tokens, hsearch, -⟩ := of_bind_ok hend
    exact ⟨tokens, ⟨fuel, fun more hle => kmpSearch_mono hsearch hle⟩, trivial⟩
  · rintro ⟨hends, hfound⟩
    have hsearch := (hends.returns kmpSearch_returns).mono fun _ h => h.2.1
    by_cases hempty : found src key = []
    · exact (rstrSplit_none hsearch hempty).mono fun _ _ => trivial
    · obtain ⟨hfew, hspaced, hfit⟩ := hfound.resolve_left hempty
      exact (rstrSplit_some hsearch hempty hfew hspaced hfit).mono fun _ _ => trivial

/-! ### All three -/

structure EndsFor (M : Malloc) (src key : CStr) (newStr : Option CStr) : Prop where
  split : Halts (fun fuel => rstrSplit M fuel src key) fun _ => True
  repl : Halts (fun fuel => rstrRepl M fuel (some src) (some key) newStr) fun _ => True
  lastIndex : Halts (fun fuel => rstrLastIndex fuel src key) fun _ => True

/-- What the search of `rstr_split` needs, and its pieces: what is found lies side by side in the source. -/
def Searchable (src key : CStr) : Prop :=
  key.chars ≠ [] ∧ (Straight key.counted ∧ (int32 key.chars.length = 0 → Restarts key.chars 0 src.counted)) ∧
    (found src key = [] ∨ (found src key).length ≤ 1342177280 ∧ Spaced key.chars.length 0 (found src key) ∧
      ∀ q ∈ found src key, q + key.chars.length ≤ src.chars.length)

theorem searchable_iff (hsrc : src.chars.length < 2147483648) (hlen : key.chars.length < 2147483648) :
    Searchable src key ↔ key.chars ≠ [] ∧ Straight key.chars ∧ (occurrences key.chars src.chars = [] ∨
      (occurrences key.chars src.chars).length ≤ 1342177280 ∧
        (occurrences key.chars src.chars).Pairwise fun p q => p + key.chars.length ≤ q) := by
  refine and_congr_right fun hkey => ?_
  have hpos := List.length_pos_iff.mpr hkey
  have hfit : ∀ q ∈ occurrences key.chars src.chars, q + key.chars.length ≤ src.chars.length := fun q =>
    occurrence_le hkey
  have hint := int32_of_lt hlen
  have hcut : int32 key.chars.length = 0 → Restarts key.chars 0 src.chars := fun hzero => by omega
  rw [found_of_pos (by omega), counted_of_lt hsrc, counted_of_lt hlen, spaced_iff_pairwise fun q _ => Nat.zero_le q,
    and_iff_left hfit, and_iff_left hcut]

/-- The searches end only for these keys, and end for them while the result is shorter than 2^30. -/
theorem endsFor_iff (M : Malloc) (src key : CStr) (newStr : Option CStr) :
    (EndsFor M src key newStr → Searchable src key) ∧
    (Searchable src key → (replaceAll key.chars (newText newStr) src.chars).length < 2 ^ 30 → EndsFor M src key newStr) ∧
    (src.chars.length < 2147483648 → key.chars.length < 2147483648 →
      (Searchable src key ↔ key.chars ≠ [] ∧ Straight key.chars ∧ (occurrences key.chars src.chars = [] ∨
        (occurrences key.chars src.chars).length ≤ 1342177280 ∧
          (occurrences key.chars src.chars).Pairwise fun p q => p + key.chars.length ≤ q))) := by
  refine ⟨?_, ?_, searchable_iff⟩
  · rintro ⟨hsplit, -, hlast⟩
    obtain ⟨hsearch, hfound⟩ := rstrSplit_ends_iff.mp hsplit
    exact ⟨fun hkey => rstrLastIndex_nil hkey hlast, kmpSearch_ends_iff.mp hsearch, hfound⟩
  · rintro ⟨hkey, hends, hfound⟩ hsize
    refine ⟨rstrSplit_ends_iff.mpr ⟨kmpSearch_ends_iff.mpr hends, hfound⟩, ?_, rstrLastIndex_halts hkey⟩
    obtain ⟨new, hobj, htext⟩ := exists_newStr newStr
    rw [htext] at hsize
    exact (rstrRepl_spec hobj hkey hsize).mono fun _ _ => trivial

/-- The empty key, in "a". -/
theorem search_empty_key : ¬ ∀ (M : Malloc) (src key : CStr) (newStr : Option CStr), EndsFor M src key newStr := by
  intro h
  exact rstrLastIndex_nil rfl (h Malloc.zeros ⟨[97], by decide, by decide⟩ ⟨[], by decide, by decide⟩ none).lastIndex

end Funra
