import Funra.Rstring.Concat

/-!
# Hexadecimal digits

`rstr_2hex` looks a byte up by `*src >> 4`, which of a signed `char` from 0x80 on is negative. `rstr_4hex` counts the
characters of its input and reads two in each round. Both write a string into `dest` and return `rcode_ok`.
-/

namespace Funra

open Mem CInt Except

def hexTable : Obj := [48, 49, 50, 51, 52, 53, 54, 55, 56, 57, 65, 66, 67, 68, 69, 70, 0]

/-- The value of a `char`. -/
def charVal (b : UInt8) : Int := if b.toNat < 128 then b.toNat else b.toNat - 256

/-- `src` and `dest` have come this far. -/
structure HexState where
  srcLen : Int
  src : Nat
  mem : Obj
  dest : Nat

def rstr2hexRound (src : Obj) (s : HexState) : Except Fault (HexState ⊕ HexState) :=
  if s.srcLen = 0 then .ok (.inr s)
  else do
    let c ← byteAt src s.src
    let mem ← store s.mem s.dest [← byteAt hexTable (charVal c / 16)]
    let mem ← store mem (s.dest + 1) [← byteAt hexTable (charVal c % 16)]
    return .inl ⟨int32 (s.srcLen - 1), s.src + 1, mem, s.dest + 2⟩

/-- The value of a digit, in the low four bits. -/
def hexNibble (c : Int) : Int := if 57 < c then c + 9 else c

/-- A multiple of 16 and less than 16: `|` is the sum. -/
def rstr4hexRound (src : Obj) (s : HexState) : Except Fault (HexState ⊕ HexState) :=
  if s.srcLen = 0 then .ok (.inr s)
  else do
    let high := hexNibble (charVal (← byteAt src s.src))
    let low := hexNibble (charVal (← byteAt src (s.src + 1)))
    let mem ← store s.mem s.dest [UInt8.ofNat ((high * 16 + low % 16) % 256).toNat]
    return .inl ⟨int32 (s.srcLen - 1), s.src + 2, mem, s.dest + 1⟩

/-- What the two functions share. -/
def hexLoop (round : Obj → HexState → Except Fault (HexState ⊕ HexState)) (fuel : Nat) (src dest : Obj) :
    Except Fault Obj := do
  let s ← loop .outOfFuel (round src) fuel ⟨int32 (← rstrLen src 0), 0, dest, 0⟩
  store s.mem s.dest [0]

def rstr2hex : Nat → Obj → Obj → Except Fault Obj := hexLoop rstr2hexRound

def rstr4hex : Nat → Obj → Obj → Except Fault Obj := hexLoop rstr4hexRound

/-! ### Digits -/

/-- Two upper-case digits a byte. -/
def hexDigits (chars : Obj) : Obj := chars.flatMap fun b => [hexTable.getD (b.toNat / 16) 0, hexTable.getD (b.toNat % 16) 0]

variable {s : CStr} {chars dest : Obj} {i n : Nat} {b : UInt8}

theorem hexDigits_length (chars : Obj) : (hexDigits chars).length = 2 * chars.length := by
  rw [hexDigits, List.length_flatMap]
  simp only [List.length_cons, List.length_nil, List.map_const', List.sum_replicate_nat]
  omega

theorem byteAt_hexTable (h : n < 16) : byteAt hexTable n = .ok (hexTable.getD n 0) := by
  have hall : ∀ n < 16, hexTable[n]? = some (hexTable.getD n 0) := by decide
  exact byteAt_eq (hall n h)

theorem hexTable_ne_zero (h : n < 16) : hexTable.getD n 0 ≠ 0 := by
  have hall : ∀ n < 16, hexTable.getD n 0 ≠ 0 := by decide
  exact hall n h

theorem zero_not_mem_hexDigits (chars : Obj) : 0 ∉ hexDigits chars := by
  intro hmem
  obtain ⟨b, -, hzero⟩ := List.mem_flatMap.mp hmem
  have hb := b.toNat_lt
  simp only [List.mem_cons, List.not_mem_nil, or_false] at hzero
  rcases hzero with h | h
  · exact hexTable_ne_zero (by omega) h.symm
  · exact hexTable_ne_zero (by omega) h.symm

theorem charVal_high (h : b.toNat < 128) : byteAt hexTable (charVal b / 16) = .ok (hexTable.getD (b.toNat / 16) 0) := by
  rw [charVal, if_pos h, ← byteAt_hexTable (by omega)]
  norm_cast

theorem charVal_high_neg (h : ¬ b.toNat < 128) : byteAt hexTable (charVal b / 16) = .error .outOfBounds := by
  have hb := b.toNat_lt
  rw [charVal, if_neg h, byteAt_neg (by omega)]

theorem charVal_low (b : UInt8) : byteAt hexTable (charVal b % 16) = .ok (hexTable.getD (b.toNat % 16) 0) := by
  have hmod : charVal b % 16 = (b.toNat % 16 : Nat) := by
    rw [charVal]
    split <;> omega
  rw [hmod, byteAt_hexTable (by omega)]

theorem hexDigits_take_succ (h : i < chars.length) : hexDigits (chars.take (i + 1)) =
    hexDigits (chars.take i) ++ [hexTable.getD (chars[i].toNat / 16) 0] ++ [hexTable.getD (chars[i].toNat % 16) 0] := by
  rw [List.take_succ_eq_append_getElem h, hexDigits, List.flatMap_append]
  simp [hexDigits]

/-! ### Encoding -/

/-- The rounds that are left, as an `int`. -/
theorem int32_pred (h : i < n) : int32 (int32 (n - i : Nat) - 1) = int32 (n - (i + 1) : Nat) := by
  unfold int32
  omega

theorem int32_left (h : i ≤ n % 4294967296) : int32 (n - i : Nat) = 0 ↔ i = n % 4294967296 := by
  unfold int32
  omega

/-- `i` bytes are written. -/
structure HexWritten (chars dest : Obj) (h : HexState) (i : Nat) : Prop where
  srcLen : h.srcLen = int32 (chars.length - i : Nat)
  src : h.src = i
  pos : h.dest = 2 * i
  le : i ≤ chars.length
  text : hexDigits (chars.take i) <+: h.mem
  length : h.mem.length = dest.length

theorem rstr2hexRound_spec {h : HexState} (hw : HexWritten s.chars dest h i) (hi : i < s.chars.length)
    (hlen : int32 (s.chars.length - i : Nat) ≠ 0) (hdest : dest.length = 2 * s.chars.length + 1)
    (hb : s.chars[i].toNat < 128) :
    (rstr2hexRound s.obj h).Succeeds fun next => ∃ h', next = .inl h' ∧ HexWritten s.chars dest h' (i + 1) := by
  have htake : (hexDigits (s.chars.take i)).length = 2 * i := by
    rw [hexDigits_length, List.length_take]
    omega
  have htext := hexDigits_take_succ hi
  have hmem := hw.length
  unfold rstr2hexRound
  rw [hw.srcLen, if_neg hlen, hw.src, hw.pos, CStr.byteAt_lt hi]
  simp only [bind, ok_bind]
  rw [charVal_high hb, ok_bind, charVal_low, ← htake]
  refine Succeeds.bind (store_append hw.text (by rw [htake, List.length_singleton]; omega)) fun mem hmem' => ?_
  have hpos : (((hexDigits (s.chars.take i)).length : Int) + 1) =
      (hexDigits (s.chars.take i) ++ [hexTable.getD (s.chars[i].toNat / 16) 0]).length := by
    rw [List.length_append, List.length_singleton, Nat.cast_succ]
  have hroom : (hexDigits (s.chars.take i) ++ [hexTable.getD (s.chars[i].toNat / 16) 0]).length +
      [hexTable.getD (s.chars[i].toNat % 16) 0].length ≤ mem.length := by
    rw [List.length_append, htake, List.length_singleton, List.length_singleton]
    omega
  rw [ok_bind, hpos]
  refine Succeeds.bind (store_append hmem'.1 hroom) fun mem' hmem'' => Succeeds.ok ⟨_, rfl, ?_⟩
  refine ⟨?_, rfl, by dsimp only; omega, hi, ?_, hmem''.2.trans (hmem'.2.trans hmem)⟩
  · exact int32_pred hi
  · rw [htext]
    exact hmem''.1

theorem rstr2hexRound_high {h : HexState} (hw : HexWritten s.chars dest h i) (hi : i < s.chars.length)
    (hlen : int32 (s.chars.length - i : Nat) ≠ 0) (hb : ¬ s.chars[i].toNat < 128) :
    rstr2hexRound s.obj h = .error .outOfBounds := by
  unfold rstr2hexRound
  rw [hw.srcLen, if_neg hlen, hw.src, CStr.byteAt_lt hi]
  simp only [bind, ok_bind]
  rw [charVal_high_neg hb]
  rfl

theorem HexWritten.start (s : CStr) (dest : Obj) : HexWritten s.chars dest ⟨int32 s.chars.length, 0, dest, 0⟩ 0 :=
  ⟨rfl, rfl, rfl, Nat.zero_le _, List.nil_prefix, rfl⟩

/-- The terminator behind the digits. -/
theorem HexWritten.finish {h : HexState} (hw : HexWritten s.chars dest h i) (hdest : dest.length = 2 * s.chars.length + 1) :
    (store h.mem h.dest [0]).Succeeds fun out => hexDigits (s.chars.take i) ++ [0] <+: out ∧ out.length = dest.length := by
  have htake : (hexDigits (s.chars.take i)).length = 2 * i := by
    have hle := hw.le
    rw [hexDigits_length, List.length_take]
    omega
  have hmem := hw.length
  have hle := hw.le
  rw [hw.pos, ← htake]
  refine (store_append (b := [0]) hw.text (by rw [htake, List.length_singleton]; omega)).mono fun out hout => ?_
  exact ⟨hout.1, hout.2.trans hmem⟩

theorem hexLoop_eq {t : Obj} (hnul : 0 ∉ t) (round : Obj → HexState → Except Fault (HexState ⊕ HexState)) (fuel : Nat)
    (dest : Obj) : hexLoop round fuel (t ++ [0]) dest =
      (loop .outOfFuel (round (t ++ [0])) fuel ⟨int32 t.length, 0, dest, 0⟩).bind fun h => store h.mem h.dest [0] := by
  simp only [hexLoop, bind]
  rw [rstrLen_text hnul, ok_bind]

theorem hexLoop_obj (round : Obj → HexState → Except Fault (HexState ⊕ HexState)) (fuel : Nat) (s : CStr) (dest : Obj) :
    hexLoop round fuel s.obj dest = (loop .outOfFuel (round s.obj) fuel ⟨int32 s.chars.length, 0, dest, 0⟩).bind fun h =>
      store h.mem h.dest [0] := hexLoop_eq s.noNul round fuel dest

def EncodesHex (s : CStr) : Prop := ∀ dest : Obj, dest.length = 2 * s.chars.length + 1 →
  Halts (fun fuel => rstr2hex fuel s.obj dest) fun out => out = hexDigits s.chars ++ [0]

theorem encodes_of_ascii (hb : ∀ b ∈ s.chars, b.toNat < 128) (hn : s.chars.length < 4294967296) : EncodesHex s := by
  intro dest hdest
  simp only [rstr2hex, hexLoop_obj]
  refine Halts.bind (Halts.loop (I := fun h => ∃ i, HexWritten s.chars dest h i) (Q := fun h => HexWritten s.chars dest h s.chars.length)
    (μ := fun h => s.chars.length - h.src) ?_ ⟨0, HexWritten.start s dest⟩) fun h hw => ?_
  · rintro h ⟨i, hw⟩
    have hle := hw.le
    have hleft : int32 (s.chars.length - i : Nat) = 0 ↔ i = s.chars.length := by
      have h := int32_left (n := s.chars.length) (i := i)
      rw [Nat.mod_eq_of_lt hn] at h
      exact h hle
    by_cases hend : i = s.chars.length
    · unfold rstr2hexRound
      rw [if_pos (hw.srcLen.trans (hleft.mpr hend))]
      exact Succeeds.ok (hend ▸ hw)
    · have hi : i < s.chars.length := Nat.lt_of_le_of_ne hle hend
      refine (rstr2hexRound_spec hw hi (fun hzero => hend (hleft.mp hzero)) hdest (hb _ (List.getElem_mem hi))).mono ?_
      rintro _ ⟨h', rfl, hw'⟩
      refine ⟨⟨i + 1, hw'⟩, ?_⟩
      rw [hw'.src, hw.src]
      omega
  · have hfinish := hw.finish hdest
    rw [List.take_length] at hfinish
    refine (hfinish.mono fun out hout => (hout.1.eq_of_length ?_).symm).halts
    rw [hout.2, hdest, List.length_append, hexDigits_length, List.length_singleton]

/-- What a call that returns has looked up, and written. -/
theorem rstr2hex_returns (hdest : dest.length = 2 * s.chars.length + 1) (fuel : Nat) :
    (rstr2hex fuel s.obj dest).Returns fun out =>
      (∀ b ∈ s.chars.take (s.chars.length % 4294967296), b.toNat < 128) ∧
        hexDigits (s.chars.take (s.chars.length % 4294967296)) ++ [0] <+: out := by
  rw [rstr2hex, hexLoop_obj]
  have hmod := Nat.mod_le s.chars.length 4294967296
  generalize hk : s.chars.length % 4294967296 = k at hmod ⊢
  refine Returns.bind (Returns.loop (I := fun h => ∃ i ≤ k, HexWritten s.chars dest h i ∧ ∀ b ∈ s.chars.take i, b.toNat < 128)
    (Q := fun h => HexWritten s.chars dest h k ∧ ∀ b ∈ s.chars.take k, b.toNat < 128) ?_
    ⟨0, Nat.zero_le k, HexWritten.start s dest, by simp⟩ fuel) fun h hw => ?_
  · rintro h ⟨i, hik, hw, hall⟩
    have hleft : int32 (s.chars.length - i : Nat) = 0 ↔ i = k := by
      have h := int32_left (n := s.chars.length) (i := i)
      rw [hk] at h
      exact h hik
    by_cases hend : i = k
    · unfold rstr2hexRound
      rw [if_pos (hw.srcLen.trans (hleft.mpr hend))]
      subst hend
      exact Returns.ok ⟨hw, hall⟩
    · have hi : i < s.chars.length := by omega
      by_cases hb : s.chars[i].toNat < 128
      · refine (rstr2hexRound_spec hw hi (fun hzero => hend (hleft.mp hzero)) hdest hb).returns.mono ?_
        rintro _ ⟨h', rfl, hw'⟩
        refine ⟨i + 1, by omega, hw', fun b hmem => ?_⟩
        rw [List.take_succ_eq_append_getElem hi, List.mem_append, List.mem_singleton] at hmem
        rcases hmem with hmem | rfl
        · exact hall b hmem
        · exact hb
      · rw [rstr2hexRound_high hw hi (fun hzero => hend (hleft.mp hzero)) hb]
        exact Returns.error
  · exact fun out hrun => ⟨hw.2, ((hw.1.finish hdest).returns out hrun).1⟩

theorem EncodesHex.ascii (h : EncodesHex s) : (∀ b ∈ s.chars, b.toNat < 128) ∧ s.chars.length < 4294967296 := by
  have hdest : (List.replicate (2 * s.chars.length + 1) (0 : UInt8)).length = 2 * s.chars.length + 1 :=
    List.length_replicate
  obtain ⟨out, rfl, hall, hpre⟩ := ((h _ hdest).returns (rstr2hex_returns hdest)).exists
  have htext := strAt_of_prefix (List.prefix_refl _) (zero_not_mem_hexDigits s.chars)
  have htext' := strAt_of_prefix hpre (zero_not_mem_hexDigits _)
  have hlen := congrArg List.length (Except.ok.inj (htext.symm.trans htext'))
  rw [hexDigits_length, hexDigits_length, List.length_take] at hlen
  have hn : s.chars.length < 4294967296 := by omega
  rw [Nat.mod_eq_of_lt hn, List.take_length] at hall
  exact ⟨hall, hn⟩

/-! ### Decoding -/

/-- `i` rounds have read two characters each. -/
structure HexRead (n : Nat) (h : HexState) (i : Nat) : Prop where
  srcLen : h.srcLen = int32 (n - i : Nat)
  src : h.src = 2 * i
  pos : h.dest = i
  le : 2 * i ≤ n + 1

theorem HexRead.start (n : Nat) (mem : Obj) : HexRead n ⟨int32 n, 0, mem, 0⟩ 0 := ⟨rfl, rfl, rfl, Nat.zero_le _⟩

theorem rstr4hexRound_returns {t : Obj} {h : HexState} (hr : HexRead t.length h i) (hi : i ≤ t.length % 4294967296) :
    (rstr4hexRound (t ++ [0]) h).Returns (Sum.elim (fun h' => ∃ j ≤ t.length % 4294967296, HexRead t.length h' j)
      fun h' => HexRead t.length h' (t.length % 4294967296)) := by
  have hleft := int32_left hi
  unfold rstr4hexRound
  by_cases hend : i = t.length % 4294967296
  · rw [if_pos (hr.srcLen.trans (hleft.mpr hend))]
    exact Returns.ok (hend ▸ hr)
  · rw [if_neg fun hzero => hend (hleft.mp (hr.srcLen.symm.trans hzero))]
    refine Returns.bind_of_forall fun c => ?_
    simp only [bind]
    by_cases hin : h.src + 1 < (t ++ [0]).length
    · refine Returns.bind_of_forall fun d => Returns.bind_of_forall fun mem => Returns.ok ⟨i + 1, by omega, ?_⟩
      rw [List.length_append, List.length_singleton, hr.src] at hin
      have hlt : i < t.length := by omega
      refine ⟨?_, by rw [hr.src, Nat.mul_succ], by rw [hr.pos], by omega⟩
      rw [hr.srcLen]
      exact int32_pred hlt
    · rw [show byteAt (t ++ [0]) (h.src + 1) = .error .outOfBounds from byteAt_beyond (not_lt.mp hin)]
      exact Returns.error

theorem rstr4hexRounds_returns (t mem : Obj) (fuel : Nat) :
    (loop .outOfFuel (rstr4hexRound (t ++ [0])) fuel ⟨int32 t.length, 0, mem, 0⟩).Returns fun h =>
      HexRead t.length h (t.length % 4294967296) := by
  refine Returns.loop (I := fun h => ∃ i ≤ t.length % 4294967296, HexRead t.length h i) ?_
    ⟨0, Nat.zero_le _, HexRead.start t.length mem⟩ fuel
  rintro h ⟨i, hi, hr⟩
  exact rstr4hexRound_returns hr hi

def DecodesHex (s : CStr) : Prop := ∀ dest : Obj, dest.length = s.chars.length + 1 →
  Halts (fun fuel => rstr4hex fuel (hexDigits s.chars ++ [0]) dest) fun out => strAt out 0 = .ok s.chars

theorem DecodesHex.nil (h : DecodesHex s) : s.chars = [] := by
  have hdest : (List.replicate (s.chars.length + 1) (0 : UInt8)).length = s.chars.length + 1 := List.length_replicate
  obtain ⟨out, ⟨fuel, hrun⟩, htext⟩ := h _ hdest
  have hrun : hexLoop rstr4hexRound fuel (hexDigits s.chars ++ [0]) _ = .ok out := hrun fuel (Nat.le_refl fuel)
  rw [hexLoop_eq (zero_not_mem_hexDigits _)] at hrun
  obtain ⟨h, hloop, hstore⟩ := of_bind_ok hrun
  have hread := rstr4hexRounds_returns _ _ fuel h hloop
  rw [hread.pos] at hstore
  have hle := strAt_le_of_store hstore htext
  have hread' := hread.le
  rw [hexDigits_length] at hle hread'
  exact List.eq_nil_of_length_eq_zero (by omega)

theorem decodes_nil (hnil : s.chars = []) : DecodesHex s := by
  intro dest hdest
  rw [hnil] at hdest
  obtain ⟨b, rfl⟩ := List.length_eq_one_iff.mp hdest
  rw [hnil]
  refine ⟨[0], ⟨1, fun fuel hfuel => ?_⟩, rfl⟩
  obtain ⟨n, rfl⟩ := Nat.exists_eq_add_of_le' hfuel
  have hround : rstr4hexRound [0] ⟨int32 (0 : Nat), 0, [b], 0⟩ = .ok (.inr ⟨int32 (0 : Nat), 0, [b], 0⟩) :=
    if_pos (show int32 (0 : Nat) = 0 by decide)
  have hloop := hexLoop_eq List.not_mem_nil rstr4hexRound (n + 1) [b]
  rw [List.nil_append, List.length_nil, loop_leave hround] at hloop
  exact hloop

/-! ### The round trip -/

/-- `dest` and `back` have the sizes that are needed. -/
def HexLaw (s : CStr) : Prop := ∀ dest back : Obj, dest.length = 2 * s.chars.length + 1 → back.length = s.chars.length + 1 →
  Halts (fun fuel => rstr2hex fuel s.obj dest) fun out => out = hexDigits s.chars ++ [0] ∧
    Halts (fun fuel => rstr4hex fuel out back) fun out' => strAt out' 0 = .ok s.chars

theorem hexLaw_iff_both : HexLaw s ↔ EncodesHex s ∧ DecodesHex s := by
  constructor
  · intro h
    constructor
    · intro dest hdest
      refine (h dest (List.replicate (s.chars.length + 1) 0) hdest List.length_replicate).mono fun out hout => hout.1
    · intro back hback
      obtain ⟨out, rfl, hrun⟩ := (h (List.replicate (2 * s.chars.length + 1) 0) back List.length_replicate hback).exists
      exact hrun
  · rintro ⟨hencodes, hdecodes⟩ dest back hdest hback
    refine (hencodes dest hdest).mono ?_
    rintro out rfl
    exact ⟨rfl, hdecodes back hback⟩

/-- The digits are right for bytes below 0x80; only those of the empty string are read again. -/
theorem hexLaw_iff (s : CStr) : (HexLaw s ↔ s.chars = []) ∧ (DecodesHex s ↔ s.chars = []) ∧
    (EncodesHex s ↔ (∀ b ∈ s.chars, b.toNat < 128) ∧ s.chars.length < 4294967296) := by
  have hencodes : EncodesHex s ↔ (∀ b ∈ s.chars, b.toNat < 128) ∧ s.chars.length < 4294967296 :=
    ⟨EncodesHex.ascii, fun h => encodes_of_ascii h.1 h.2⟩
  refine ⟨⟨fun h => (hexLaw_iff_both.mp h).2.nil, fun hnil => ?_⟩, ⟨DecodesHex.nil, decodes_nil⟩, hencodes⟩
  refine hexLaw_iff_both.mpr ⟨hencodes.mpr ?_, decodes_nil hnil⟩
  rw [hnil]
  exact ⟨fun b hb => absurd hb List.not_mem_nil, by decide⟩

/-- "A" is written as "41", which is read in two rounds. -/
theorem hex_no_round_trip : ¬ ∀ s : CStr, HexLaw s := by
  intro h
  exact absurd (hexLaw_iff_both.mp (h ⟨[65], by decide, by decide⟩)).2.nil (by decide)

end Funra
