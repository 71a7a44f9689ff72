import Funra.Lib.Transcode
import Mathlib.Tactic.Ring

/-!
# Conversion of paths between UTF-8 and UTF-16

`convert_utf8_to_ucs2` and `convert_ucs2_to_utf8` of `rfile.c`. Both are loops over characters, whose rounds are
`utf8Round` and `ucs2Round`; a round of each is exact, so that the functions accept just the well-formed texts
and undo each other (`conversion_exact`).

Values are natural numbers, with the bit operations of the source on them.
-/

namespace Funra

open Transcode

/-! ## `convert_utf8_to_ucs2` -/

/-- The value of `n > 2`: the character has a word, or a unit, more. -/
def extraUnits (n : Nat) : Nat := if n > 2 then 1 else 0

/-- `a & ~b`. -/
def andNot (a b : Nat) : Nat := a ^^^ (a &&& b)

/-- The loop over the lead byte: the mask, and the number of bytes expected behind it. `expect` leaves the loop
at 4 at the latest, which is an error. -/
def leadLoop (ch : Nat) : Nat → Nat → Nat → Option (Nat × Nat)
  | 0, _, _ => none
  | fuel + 1, mask, expect =>
    if ch &&& mask = mask then
      let mask := mask ||| mask >>> 1
      if expect + 1 > 3 then none else leadLoop ch fuel mask (expect + 1)
    else some (mask, expect)

/-- The checks on the bits of the lead byte and on the byte behind it. -/
def leadRejects (expect newch mask next : Nat) : Bool :=
  if expect = 1 then newch &&& 0o36 = 0
  else
    (newch = 0 && next &&& 0o77 &&& mask <<< 1 = 0) ||
    (if expect = 2 then newch = 0o15 && next &&& 0o40 ≠ 0
    else if expect = 3 then newch > 4 || (newch = 4 && next &&& 0o60 ≠ 0)
    else false)

/-- The loop over the `expect` bytes behind the lead byte. -/
def continuation : Nat → List UInt8 → Nat → Option Nat
  | 0, _, newch => some newch
  | _ + 1, [], _ => none
  | expect + 1, ch :: input, newch =>
    if ch.toNat &&& 0o300 ≠ 0o200 then none
    else continuation expect input (newch <<< 6 ||| ch.toNat &&& 0o77)

/-- The character as one or two words. -/
def foldUcs2 (newch : Nat) : List UInt16 :=
  if newch < 0x10000 then [.ofNat newch]
  else
    let newch := newch - 0x10000
    [.ofNat (0xD800 ||| newch >>> 10), .ofNat (0xDC00 ||| newch &&& 0x03FF)]

def utf8Round (byte : UInt8) (input : List UInt8) (outwords : Nat) : Round UInt16 :=
  let ch := byte.toNat
  if ch &&& 0o200 = 0 then .put 1 [.ofNat ch]
  else if ch &&& 0o300 ≠ 0o300 then .stop (-1)
  else
    match leadLoop ch 4 0o340 1 with
    | none => .stop (-1)
    | some (mask, expect) =>
      let newch := andNot ch mask
      match input with
      | [] => .stop (-2)
      | next :: _ =>
        if input.length + 1 ≤ expect then .stop (-2)
        else if leadRejects expect newch mask next.toNat then .stop (-1)
        else if outwords < extraUnits expect + 1 then .full
        else
          match continuation expect input newch with
          | none => .stop (-1)
          | some newch => .put (expect + 1) (foldUcs2 newch)

def convertUtf8ToUcs2 (input : List UInt8) (outwords : Nat) : Result UInt16 := loop utf8Round input outwords

/-! ## `convert_ucs2_to_utf8` -/

/-- The loop `while (require)`. -/
def needLoop (require need : Nat) : Nat :=
  if require = 0 then need else needLoop (require >>> 5) (need + 1)
termination_by require
decreasing_by
  rw [Nat.shiftRight_eq_div_pow]
  omega

/-- The loop `while (need--)` and the lead byte, from the last byte to the first. -/
def putUtf8 : Nat → Nat → Nat → List UInt8 → List UInt8
  | 0, ch, newch, out => .ofNat (ch ||| newch) :: out
  | need + 1, ch, newch, out =>
    putUtf8 need (ch ||| ch >>> 1) (newch >>> 6) (.ofNat (0o200 ||| newch &&& 0o77) :: out)

/-- The part of a round behind the decoding of a character. -/
def emitUtf8 (newch outbytes : Nat) : Round UInt8 :=
  let need := needLoop (newch >>> 11) 1
  if need ≥ outbytes then .full
  else .put (extraUnits need + 1) (putUtf8 need 0o200 newch [])

def ucs2Round (word : UInt16) (input : List UInt16) (outbytes : Nat) : Round UInt8 :=
  let ch := word.toNat
  if ch < 0x80 then .put 1 [.ofNat ch]
  else if ch &&& 0xFC00 = 0xDC00 then .stop (-1)
  else if ch &&& 0xFC00 = 0xD800 then
    match input with
    | [] => .stop (-2)
    | next :: _ =>
      if next.toNat &&& 0xFC00 ≠ 0xDC00 then .stop (-1)
      else emitUtf8 (((ch &&& 0x03FF) <<< 10 ||| next.toNat &&& 0x03FF) + 0x10000) outbytes
  else emitUtf8 ch outbytes

def convertUcs2ToUtf8 (input : List UInt16) (outbytes : Nat) : Result UInt8 := loop ucs2Round input outbytes

/-! ### Bits -/

theorem or_eq_add (a : Nat) {i x : Nat} (hx : x < 2 ^ i) : a <<< i ||| x = a * 2 ^ i + x := by
  rw [← Nat.shiftLeft_add_eq_or_of_lt hx, Nat.shiftLeft_eq]

/-- Every statement about a byte, by looking at all of them. -/
theorem forall_byte {P : Nat → Prop} (h : ∀ b : Fin 256, P b) (b : UInt8) : P b.toNat := h ⟨b.toNat, b.toNat_lt⟩

/-- The bits that are tested in a byte say in which range it is. -/
theorem byte_bits (b : UInt8) : (b.toNat &&& 0o300 = 0o200 ↔ 128 ≤ b.toNat ∧ b.toNat < 192) ∧
    (b.toNat &&& 0o200 = 0 ↔ b.toNat < 128) ∧ (b.toNat &&& 0o300 = 0o300 ↔ 192 ≤ b.toNat) ∧
    (b.toNat &&& 0o77 &&& 0xF0 <<< 1 = 0 ↔ b.toNat % 64 < 32) ∧ (b.toNat &&& 0o40 ≠ 0 ↔ 32 ≤ b.toNat % 64) ∧
    (b.toNat &&& 0o77 &&& 0xF8 <<< 1 = 0 ↔ b.toNat % 64 < 16) ∧ (b.toNat &&& 0o60 ≠ 0 ↔ 16 ≤ b.toNat % 64) :=
  forall_byte (P := fun b => (b &&& 0o300 = 0o200 ↔ 128 ≤ b ∧ b < 192) ∧ (b &&& 0o200 = 0 ↔ b < 128) ∧
    (b &&& 0o300 = 0o300 ↔ 192 ≤ b) ∧ (b &&& 0o77 &&& 0xF0 <<< 1 = 0 ↔ b % 64 < 32) ∧ (b &&& 0o40 ≠ 0 ↔ 32 ≤ b % 64) ∧
    (b &&& 0o77 &&& 0xF8 <<< 1 = 0 ↔ b % 64 < 16) ∧ (b &&& 0o60 ≠ 0 ↔ 16 ≤ b % 64)) (by decide +kernel) b

theorem tail_byte_iff (b : UInt8) : b.toNat &&& 0o300 = 0o200 ↔ 128 ≤ b.toNat ∧ b.toNat < 192 := (byte_bits b).1

theorem byte_low (b : Nat) : b &&& 0o77 = b % 64 := Nat.and_two_pow_sub_one_eq_mod b 6

theorem ascii_byte_iff (b : UInt8) : b.toNat &&& 0o200 = 0 ↔ b.toNat < 128 :=
  (byte_bits b).2.1

theorem lead_byte_iff (b : UInt8) : b.toNat &&& 0o300 = 0o300 ↔ 192 ≤ b.toNat :=
  (byte_bits b).2.2.1

/-- What the lead byte of a sequence of two, three or four bytes says. -/
def leadOf (b : Nat) : Option (Nat × Nat × Nat) :=
  if b < 0xE0 then some (0xE0, 1, b - 0xC0)
  else if b < 0xF0 then some (0xF0, 2, b - 0xE0)
  else if b < 0xF8 then some (0xF8, 3, b - 0xF0)
  else none

theorem leadLoop_eq (b : UInt8) (hb : 192 ≤ b.toNat) :
    (leadLoop b.toNat 4 0o340 1).map (fun r => (r.1, r.2, andNot b.toNat r.1)) = leadOf b.toNat :=
  forall_byte (P := fun b => 192 ≤ b →
    (leadLoop b 4 0o340 1).map (fun r => (r.1, r.2, andNot b r.1)) = leadOf b) (by decide +kernel) b hb

theorem leadRejects_two {newch next mask : Nat} (hnew : newch < 32) :
    leadRejects 1 newch mask next = true ↔ newch < 2 := by
  have htable : ∀ n : Fin 32, (n.val &&& 0o36 = 0 ↔ n.val < 2) := by decide +kernel
  rw [leadRejects, if_pos rfl, decide_eq_true_iff]
  exact htable ⟨newch, hnew⟩

theorem leadRejects_three (newch : Nat) (next : UInt8) :
    leadRejects 2 newch 0xF0 next.toNat = true ↔
      (newch = 0 ∧ next.toNat % 64 < 32) ∨ (newch = 13 ∧ 32 ≤ next.toNat % 64) := by
  obtain ⟨-, -, -, hlow, hhigh, -⟩ := byte_bits next
  rw [leadRejects, if_neg (by decide), if_pos rfl]
  simp only [Bool.or_eq_true, Bool.and_eq_true, decide_eq_true_iff, hlow, hhigh]

theorem leadRejects_four (newch : Nat) (next : UInt8) :
    leadRejects 3 newch 0xF8 next.toNat = true ↔
      (newch = 0 ∧ next.toNat % 64 < 16) ∨ 4 < newch ∨ (newch = 4 ∧ 16 ≤ next.toNat % 64) := by
  obtain ⟨-, -, -, -, -, hlow, hhigh⟩ := byte_bits next
  rw [leadRejects, if_neg (by decide), if_neg (by decide), if_pos rfl]
  simp only [Bool.or_eq_true, Bool.and_eq_true, decide_eq_true_iff, hlow, hhigh, gt_iff_lt]

/-! ### A round of `convert_utf8_to_ucs2` -/

/-- A byte behind the lead byte. -/
def TailByte (b : UInt8) : Prop := 128 ≤ b.toNat ∧ b.toNat < 192

section utf8Round

variable {b : UInt8} {input : List UInt8} {room eaten : Nat} {out : List UInt16}

theorem continuation_zero (input : List UInt8) (newch : Nat) : continuation 0 input newch = some newch := by
  cases input <;> rfl

theorem continuation_cons_iff {n newch v : Nat} {input : List UInt8} :
    continuation (n + 1) input newch = some v ↔
      ∃ next rest, input = next :: rest ∧ TailByte next ∧
        continuation n rest (newch * 64 + next.toNat % 64) = some v := by
  cases input with
  | nil =>
    refine iff_of_false (fun h => nomatch h) ?_
    rintro ⟨next, rest, h, -⟩
    cases h
  | cons next rest =>
    simp only [List.cons.injEq, continuation]
    have hstep : newch <<< 6 ||| next.toNat &&& 0o77 = newch * 64 + next.toNat % 64 := by
      rw [byte_low]
      exact or_eq_add newch (i := 6) (Nat.mod_lt _ (by decide))
    rw [hstep]
    constructor
    · intro h
      split at h
      · cases h
      · rename_i htail
        exact ⟨next, rest, ⟨rfl, rfl⟩, (tail_byte_iff next).mp (not_not.mp htail), h⟩
    · rintro ⟨_, _, ⟨rfl, rfl⟩, htail, h⟩
      rwa [if_neg (not_not.mpr ((tail_byte_iff _).mpr htail))]

theorem utf8Round_ascii (hb : b.toNat < 128) : utf8Round b input room = .put 1 [.ofNat b.toNat] := by
  rw [utf8Round, if_pos ((ascii_byte_iff b).mpr hb)]

theorem utf8Round_tail (hb : TailByte b) : utf8Round b input room = .stop (-1) := by
  obtain ⟨hlo, hhi⟩ := hb
  rw [utf8Round, if_neg (by rw [ascii_byte_iff]; omega), if_pos]
  rw [ne_eq, lead_byte_iff]
  omega

theorem utf8Round_no_lead (hb : 248 ≤ b.toNat) : utf8Round b input room = .stop (-1) := by
  have hlead := leadLoop_eq b (by omega)
  rw [leadOf, if_neg (by omega), if_neg (by omega), if_neg (by omega), Option.map_eq_none_iff] at hlead
  rw [utf8Round, if_neg (by rw [ascii_byte_iff]; omega), if_neg (by rw [ne_eq, lead_byte_iff]; omega), hlead]

/-- A round on a lead byte that expects `expect` more. -/
theorem utf8Round_lead_iff {mask expect newch : Nat} (hb : 192 ≤ b.toNat)
    (hlead : leadOf b.toNat = some (mask, expect, newch)) : utf8Round b input room = .put eaten out ↔
      ∃ next rest, input = next :: rest ∧ expect < input.length + 1 ∧
        leadRejects expect newch mask next.toNat = false ∧ extraUnits expect + 1 ≤ room ∧
        eaten = expect + 1 ∧ ∃ v, continuation expect input newch = some v ∧ out = foldUcs2 v := by
  have hloop := leadLoop_eq b hb
  rw [hlead, Option.map_eq_some_iff] at hloop
  obtain ⟨⟨mask', expect'⟩, hloop, heq⟩ := hloop
  cases heq
  rw [utf8Round, if_neg (by rw [ascii_byte_iff]; omega), if_neg (by rw [ne_eq, lead_byte_iff]; omega), hloop]
  cases input with
  | nil =>
    refine iff_of_false (fun h => nomatch h) ?_
    rintro ⟨next, rest, h, -⟩
    cases h
  | cons next rest =>
    dsimp only
    constructor
    · intro h
      split at h
      · cases h
      rename_i hlen
      split at h
      · cases h
      rename_i hrejects
      split at h
      · cases h
      rename_i hroom
      split at h
      · cases h
      rename_i v hv
      cases h
      exact ⟨next, rest, rfl, by omega, by simpa using hrejects, by omega, rfl, v, hv, rfl⟩
    · rintro ⟨_, _, heq, hlen, hrejects, hroom, rfl, v, hv, rfl⟩
      cases heq
      rw [if_neg (by omega), if_neg (by simp [hrejects]), if_neg (by omega), hv]

/-- Two bytes: the lead byte is not `C0` or `C1`. -/
theorem utf8Round_two_iff (hlo : 192 ≤ b.toNat) (hhi : b.toNat < 224) : utf8Round b input room = .put eaten out ↔
    ∃ n₁ rest, input = n₁ :: rest ∧ 194 ≤ b.toNat ∧ TailByte n₁ ∧ 1 ≤ room ∧ eaten = 2 ∧
      out = foldUcs2 ((b.toNat - 192) * 64 + n₁.toNat % 64) := by
  have hlead : leadOf b.toNat = some (0xE0, 1, b.toNat - 192) := if_pos hhi
  have hcheck (next : UInt8) : leadRejects 1 (b.toNat - 192) 0xE0 next.toNat = false ↔ 194 ≤ b.toNat := by
    rw [← Bool.not_eq_true, leadRejects_two (by omega)]
    omega
  rw [utf8Round_lead_iff hlo hlead]
  simp only [hcheck, continuation_cons_iff, continuation_zero, Option.some.injEq]
  constructor
  · rintro ⟨next, rest, rfl, hlen, hok, hroom, rfl, v, ⟨n₁, rest', heq, h₁, rfl⟩, rfl⟩
    cases heq
    exact ⟨_, _, rfl, hok, h₁, hroom, rfl, rfl⟩
  · rintro ⟨n₁, rest, rfl, hok, h₁, hroom, rfl, rfl⟩
    exact ⟨n₁, rest, rfl, by simp, hok, hroom, rfl, _, ⟨n₁, rest, rfl, h₁, rfl⟩, rfl⟩

/-- Three bytes: no overlong form, no surrogate. -/
theorem utf8Round_three_iff (hlo : 224 ≤ b.toNat) (hhi : b.toNat < 240) : utf8Round b input room = .put eaten out ↔
    ∃ n₁ n₂ rest, input = n₁ :: n₂ :: rest ∧ (b.toNat = 224 → 160 ≤ n₁.toNat) ∧ (b.toNat = 237 → n₁.toNat < 160) ∧
      TailByte n₁ ∧ TailByte n₂ ∧ 1 ≤ room ∧ eaten = 3 ∧
      out = foldUcs2 (((b.toNat - 224) * 64 + n₁.toNat % 64) * 64 + n₂.toNat % 64) := by
  have hlead : leadOf b.toNat = some (0xF0, 2, b.toNat - 224) := by
    rw [leadOf, if_neg (by omega), if_pos hhi]
  have hcheck (next : UInt8) (htail : TailByte next) : leadRejects 2 (b.toNat - 224) 0xF0 next.toNat = false ↔
      (b.toNat = 224 → 160 ≤ next.toNat) ∧ (b.toNat = 237 → next.toNat < 160) := by
    rw [← Bool.not_eq_true, leadRejects_three]
    obtain ⟨h₁, h₂⟩ := htail
    omega
  rw [utf8Round_lead_iff (by omega) hlead]
  simp only [continuation_cons_iff, continuation_zero, Option.some.injEq]
  constructor
  · rintro ⟨next, rest, rfl, hlen, hok, hroom, rfl, v, ⟨n₁, rest₁, heq, h₁, n₂, rest₂, rfl, h₂, rfl⟩, rfl⟩
    cases heq
    obtain ⟨hover, hsurrogate⟩ := (hcheck _ h₁).mp hok
    exact ⟨_, _, _, rfl, hover, hsurrogate, h₁, h₂, hroom, rfl, rfl⟩
  · rintro ⟨n₁, n₂, rest, rfl, hover, hsurrogate, h₁, h₂, hroom, rfl, rfl⟩
    exact ⟨n₁, n₂ :: rest, rfl, by simp, (hcheck n₁ h₁).mpr ⟨hover, hsurrogate⟩, hroom, rfl, _,
      ⟨n₁, _, rfl, h₁, n₂, rest, rfl, h₂, rfl⟩, rfl⟩

/-- Four bytes: no overlong form, nothing above the last scalar value. -/
theorem utf8Round_four_iff (hlo : 240 ≤ b.toNat) (hhi : b.toNat < 248) : utf8Round b input room = .put eaten out ↔
    ∃ n₁ n₂ n₃ rest, input = n₁ :: n₂ :: n₃ :: rest ∧ (b.toNat = 240 → 144 ≤ n₁.toNat) ∧ b.toNat ≤ 244 ∧
      (b.toNat = 244 → n₁.toNat < 144) ∧ TailByte n₁ ∧ TailByte n₂ ∧ TailByte n₃ ∧ 2 ≤ room ∧ eaten = 4 ∧
      out = foldUcs2 ((((b.toNat - 240) * 64 + n₁.toNat % 64) * 64 + n₂.toNat % 64) * 64 + n₃.toNat % 64) := by
  have hlead : leadOf b.toNat = some (0xF8, 3, b.toNat - 240) := by
    rw [leadOf, if_neg (by omega), if_neg (by omega), if_pos hhi]
  have hcheck (next : UInt8) (htail : TailByte next) : leadRejects 3 (b.toNat - 240) 0xF8 next.toNat = false ↔
      (b.toNat = 240 → 144 ≤ next.toNat) ∧ b.toNat ≤ 244 ∧ (b.toNat = 244 → next.toNat < 144) := by
    rw [← Bool.not_eq_true, leadRejects_four]
    obtain ⟨h₁, h₂⟩ := htail
    omega
  rw [utf8Round_lead_iff (by omega) hlead]
  simp only [continuation_cons_iff, continuation_zero, Option.some.injEq]
  constructor
  · rintro ⟨next, rest, rfl, hlen, hok, hroom, rfl, v,
      ⟨n₁, rest₁, heq, h₁, n₂, rest₂, rfl, h₂, n₃, rest₃, rfl, h₃, rfl⟩, rfl⟩
    cases heq
    obtain ⟨hover, hle, hlast⟩ := (hcheck _ h₁).mp hok
    exact ⟨_, _, _, _, rfl, hover, hle, hlast, h₁, h₂, h₃, hroom, rfl, rfl⟩
  · rintro ⟨n₁, n₂, n₃, rest, rfl, hover, hle, hlast, h₁, h₂, h₃, hroom, rfl, rfl⟩
    exact ⟨n₁, n₂ :: n₃ :: rest, rfl, by simp, (hcheck n₁ h₁).mpr ⟨hover, hle, hlast⟩, hroom, rfl, _,
      ⟨n₁, _, rfl, h₁, n₂, _, rfl, h₂, n₃, rest, rfl, h₃, rfl⟩, rfl⟩

end utf8Round

/-! ### The codes of a character -/

section codes

variable {c : Char}

theorem toNat_byte {v : Nat} (h : v < 256) : (UInt8.ofNat v).toNat = v := UInt8.toNat_ofNat_of_lt' h

theorem utf8_one (h : c.val.toNat < 0x80) : String.utf8EncodeChar c = [.ofNat c.val.toNat] := if_pos (by omega)

theorem utf8_two (hlo : 0x80 ≤ c.val.toNat) (hhi : c.val.toNat < 0x800) : String.utf8EncodeChar c =
    [.ofNat (c.val.toNat / 64 % 0x20 + 0xC0), .ofNat (c.val.toNat % 0x40 + 0x80)] := by
  rw [String.utf8EncodeChar, if_neg (by omega), if_pos (by omega)]

theorem utf8_three (hlo : 0x800 ≤ c.val.toNat) (hhi : c.val.toNat < 0x10000) : String.utf8EncodeChar c =
    [.ofNat (c.val.toNat / 4096 % 0x10 + 0xE0), .ofNat (c.val.toNat / 64 % 0x40 + 0x80),
      .ofNat (c.val.toNat % 0x40 + 0x80)] := by
  rw [String.utf8EncodeChar, if_neg (by omega), if_neg (by omega), if_pos (by omega)]

theorem utf8_four (hlo : 0x10000 ≤ c.val.toNat) : String.utf8EncodeChar c =
    [.ofNat (c.val.toNat / 262144 % 0x08 + 0xF0), .ofNat (c.val.toNat / 4096 % 0x40 + 0x80),
      .ofNat (c.val.toNat / 64 % 0x40 + 0x80), .ofNat (c.val.toNat % 0x40 + 0x80)] := by
  rw [String.utf8EncodeChar, if_neg (by omega), if_neg (by omega), if_neg (by omega)]

/-- A byte is the one with its number. -/
theorem ofNat_byte {b : UInt8} {v : Nat} (h : v = b.toNat) : UInt8.ofNat v = b := by
  rw [h, UInt8.ofNat_toNat]

theorem tail_toNat {b : UInt8} (hb : TailByte b) : b.toNat % 64 + 0x80 = b.toNat := by
  obtain ⟨hlo, hhi⟩ := hb
  omega

/-! A number that is put together six bits at a time comes apart again. -/

theorem code_two (a n₁ : Nat) : (a * 64 + n₁ % 64) / 64 = a ∧ (a * 64 + n₁ % 64) % 64 = n₁ % 64 := by
  omega

theorem code_three (a n₁ n₂ : Nat) : ((a * 64 + n₁ % 64) * 64 + n₂ % 64) / 4096 = a ∧
    ((a * 64 + n₁ % 64) * 64 + n₂ % 64) / 64 % 64 = n₁ % 64 ∧ ((a * 64 + n₁ % 64) * 64 + n₂ % 64) % 64 = n₂ % 64 := by
  omega

theorem code_four (a n₁ n₂ n₃ : Nat) : (((a * 64 + n₁ % 64) * 64 + n₂ % 64) * 64 + n₃ % 64) / 262144 = a ∧
    (((a * 64 + n₁ % 64) * 64 + n₂ % 64) * 64 + n₃ % 64) / 4096 % 64 = n₁ % 64 ∧
    (((a * 64 + n₁ % 64) * 64 + n₂ % 64) * 64 + n₃ % 64) / 64 % 64 = n₂ % 64 ∧
    (((a * 64 + n₁ % 64) * 64 + n₂ % 64) * 64 + n₃ % 64) % 64 = n₃ % 64 := by
  omega

theorem exists_two {b n₁ : UInt8} (hlo : 194 ≤ b.toNat) (hhi : b.toNat < 224) (h₁ : TailByte n₁) :
    ∃ c : Char, c.val.toNat = (b.toNat - 192) * 64 + n₁.toNat % 64 ∧ String.utf8EncodeChar c = [b, n₁] ∧
      c.val.toNat < 0x10000 := by
  obtain ⟨hlead, htail⟩ := code_two (b.toNat - 192) n₁.toNat
  have hrange : 0x80 ≤ (b.toNat - 192) * 64 + n₁.toNat % 64 ∧ (b.toNat - 192) * 64 + n₁.toNat % 64 < 0x800 := by
    omega
  obtain ⟨c, hc⟩ := exists_scalar (Or.inl (hrange.2.trans (by decide)))
  rw [← hc] at hlead htail hrange
  refine ⟨c, hc, ?_, hrange.2.trans (by decide)⟩
  rw [utf8_two hrange.1 hrange.2, hlead, htail, tail_toNat h₁, UInt8.ofNat_toNat, ofNat_byte (b := b) (by omega)]

theorem exists_three {b n₁ n₂ : UInt8} (hlo : 224 ≤ b.toNat) (hhi : b.toNat < 240) (hover : b.toNat = 224 → 160 ≤ n₁.toNat)
    (hsurrogate : b.toNat = 237 → n₁.toNat < 160) (h₁ : TailByte n₁) (h₂ : TailByte n₂) :
    ∃ c : Char, c.val.toNat = ((b.toNat - 224) * 64 + n₁.toNat % 64) * 64 + n₂.toNat % 64 ∧
      String.utf8EncodeChar c = [b, n₁, n₂] ∧ c.val.toNat < 0x10000 := by
  -- the second byte keeps the number out of the shorter form and out of the surrogates
  have hsecond : 0x20 ≤ (b.toNat - 224) * 64 + n₁.toNat % 64 ∧ (b.toNat - 224) * 64 + n₁.toNat % 64 < 0x400 ∧
      ((b.toNat - 224) * 64 + n₁.toNat % 64 < 0x360 ∨ 0x380 ≤ (b.toNat - 224) * 64 + n₁.toNat % 64) := by
    obtain ⟨hn, hn'⟩ := h₁
    omega
  obtain ⟨hshort, hbmp, hscalar⟩ : 0x800 ≤ ((b.toNat - 224) * 64 + n₁.toNat % 64) * 64 + n₂.toNat % 64 ∧
      ((b.toNat - 224) * 64 + n₁.toNat % 64) * 64 + n₂.toNat % 64 < 0x10000 ∧
      (((b.toNat - 224) * 64 + n₁.toNat % 64) * 64 + n₂.toNat % 64 < 0xD800 ∨
        0xDFFF < ((b.toNat - 224) * 64 + n₁.toNat % 64) * 64 + n₂.toNat % 64) := by
    generalize (b.toNat - 224) * 64 + n₁.toNat % 64 = v at hsecond
    omega
  obtain ⟨c, hc⟩ := exists_scalar (hscalar.imp_right fun h => ⟨h, hbmp.trans (by decide)⟩)
  obtain ⟨hlead, htail₁, htail₂⟩ := code_three (b.toNat - 224) n₁.toNat n₂.toNat
  rw [← hc] at hshort hbmp hlead htail₁ htail₂
  have hb : (b.toNat - 224) % 0x10 + 0xE0 = b.toNat := by
    omega
  refine ⟨c, hc, ?_, hbmp⟩
  rw [utf8_three hshort hbmp, hlead, htail₁, htail₂, tail_toNat h₁, tail_toNat h₂, hb]
  simp only [UInt8.ofNat_toNat]

theorem exists_four {b n₁ n₂ n₃ : UInt8} (hlo : 240 ≤ b.toNat) (hover : b.toNat = 240 → 144 ≤ n₁.toNat)
    (hhi : b.toNat ≤ 244) (hlast : b.toNat = 244 → n₁.toNat < 144) (h₁ : TailByte n₁) (h₂ : TailByte n₂)
    (h₃ : TailByte n₃) : ∃ c : Char,
    c.val.toNat = (((b.toNat - 240) * 64 + n₁.toNat % 64) * 64 + n₂.toNat % 64) * 64 + n₃.toNat % 64 ∧
      String.utf8EncodeChar c = [b, n₁, n₂, n₃] ∧ 0x10000 ≤ c.val.toNat := by
  have hsecond : 0x10 ≤ (b.toNat - 240) * 64 + n₁.toNat % 64 ∧ (b.toNat - 240) * 64 + n₁.toNat % 64 < 0x110 := by
    obtain ⟨hn, hn'⟩ := h₁
    omega
  obtain ⟨hpair, hscalar⟩ : 0x10000 ≤ (((b.toNat - 240) * 64 + n₁.toNat % 64) * 64 + n₂.toNat % 64) * 64 + n₃.toNat % 64 ∧
      (((b.toNat - 240) * 64 + n₁.toNat % 64) * 64 + n₂.toNat % 64) * 64 + n₃.toNat % 64 < 0x110000 := by
    generalize (b.toNat - 240) * 64 + n₁.toNat % 64 = v at hsecond
    omega
  obtain ⟨c, hc⟩ := exists_scalar (Or.inr ⟨Nat.lt_of_lt_of_le (by decide) hpair, hscalar⟩)
  obtain ⟨hlead, htail₁, htail₂, htail₃⟩ := code_four (b.toNat - 240) n₁.toNat n₂.toNat n₃.toNat
  rw [← hc] at hpair hlead htail₁ htail₂ htail₃
  have hb : (b.toNat - 240) % 0x08 + 0xF0 = b.toNat := by
    omega
  refine ⟨c, hc, ?_, hpair⟩
  rw [utf8_four hpair, hlead, htail₁, htail₂, htail₃, tail_toNat h₁, tail_toNat h₂, tail_toNat h₃, hb]
  simp only [UInt8.ofNat_toNat]

theorem foldUcs2_eq (c : Char) : foldUcs2 c.val.toNat = utf16Encode c := by
  have hrange := scalar_range c
  by_cases hlt : c.val.toNat < 0x10000
  · rw [foldUcs2, if_pos hlt, utf16Encode_of_lt hlt]
  · have hhigh : 0xD800 ||| (c.val.toNat - 0x10000) >>> 10 = 0xD800 + (c.val.toNat - 0x10000) / 0x400 := by
      rw [Nat.shiftRight_eq_div_pow]
      exact or_eq_add 54 (i := 10) (by omega)
    have hlow : 0xDC00 ||| (c.val.toNat - 0x10000) &&& 0x03FF = 0xDC00 + (c.val.toNat - 0x10000) % 0x400 := by
      rw [show (0x03FF : Nat) = 2 ^ 10 - 1 from rfl, Nat.and_two_pow_sub_one_eq_mod]
      exact or_eq_add 55 (i := 10) (Nat.mod_lt _ (by decide))
    rw [foldUcs2, if_neg hlt, utf16Encode_of_ge (by omega)]
    dsimp only
    rw [hhigh, hlow]

theorem utf8EncodeChar_ne_nil (c : Char) : String.utf8EncodeChar c ≠ [] := by
  unfold String.utf8EncodeChar
  dsimp only
  split
  · exact List.cons_ne_nil _ _
  · split
    · exact List.cons_ne_nil _ _
    · split <;> exact List.cons_ne_nil _ _

theorem utf16Encode_length (c : Char) : (utf16Encode c).length = if c.val.toNat < 0x10000 then 1 else 2 := by
  unfold utf16Encode
  dsimp only
  split <;> rfl

end codes

/-! ### The rounds are exact -/

theorem utf8Round_sound {b : UInt8} {input : List UInt8} {room eaten : Nat} {out : List UInt16}
    (hroom : 0 < room) (h : utf8Round b input room = .put eaten out) :
    ∃ c : Char, (b :: input).take eaten = String.utf8EncodeChar c ∧ eaten = (String.utf8EncodeChar c).length ∧
      out = utf16Encode c ∧ out.length ≤ room := by
  by_cases h₁ : b.toNat < 128
  · rw [utf8Round_ascii h₁] at h
    cases h
    obtain ⟨c, hc⟩ := exists_scalar (v := b.toNat) (by omega)
    have hcode : String.utf8EncodeChar c = [b] := by
      rw [utf8_one (by omega), ofNat_byte hc]
    refine ⟨c, by rw [hcode]; rfl, by rw [hcode]; rfl, ?_, hroom⟩
    rw [utf16Encode_of_lt (by omega), hc]
  by_cases h₂ : b.toNat < 192
  · rw [utf8Round_tail ⟨by omega, h₂⟩] at h
    cases h
  by_cases h₃ : b.toNat < 224
  · obtain ⟨n₁, rest, rfl, hok, hn₁, hone, rfl, rfl⟩ := (utf8Round_two_iff (by omega) h₃).mp h
    obtain ⟨c, hc, hcode, hbmp⟩ := exists_two hok h₃ hn₁
    refine ⟨c, by rw [hcode]; rfl, by rw [hcode]; rfl, ?_, ?_⟩
    · rw [← hc, foldUcs2_eq]
    · rw [← hc, foldUcs2_eq, utf16Encode_length, if_pos hbmp]
      exact hone
  by_cases h₄ : b.toNat < 240
  · obtain ⟨n₁, n₂, rest, rfl, hover, hsurrogate, hn₁, hn₂, hone, rfl, rfl⟩ := (utf8Round_three_iff (by omega) h₄).mp h
    obtain ⟨c, hc, hcode, hbmp⟩ := exists_three (by omega) h₄ hover hsurrogate hn₁ hn₂
    refine ⟨c, by rw [hcode]; rfl, by rw [hcode]; rfl, ?_, ?_⟩
    · rw [← hc, foldUcs2_eq]
    · rw [← hc, foldUcs2_eq, utf16Encode_length, if_pos hbmp]
      exact hone
  by_cases h₅ : b.toNat < 248
  · obtain ⟨n₁, n₂, n₃, rest, rfl, hover, hle, hlast, hn₁, hn₂, hn₃, htwo, rfl, rfl⟩ :=
      (utf8Round_four_iff (by omega) h₅).mp h
    obtain ⟨c, hc, hcode, hpair⟩ := exists_four (by omega) hover hle hlast hn₁ hn₂ hn₃
    refine ⟨c, by rw [hcode]; rfl, by rw [hcode]; rfl, ?_, ?_⟩
    · rw [← hc, foldUcs2_eq]
    · rw [← hc, foldUcs2_eq, utf16Encode_length, if_neg (Nat.not_lt.mpr hpair)]
      exact htwo
  · rw [utf8Round_no_lead (by omega)] at h
    cases h

theorem utf8Round_complete {b : UInt8} {input tail : List UInt8} {room : Nat} {c : Char}
    (h : b :: input = String.utf8EncodeChar c ++ tail) (hroom : (utf16Encode c).length ≤ room) :
    utf8Round b input room = .put (String.utf8EncodeChar c).length (utf16Encode c) := by
  have hrange := scalar_range c
  rw [utf16Encode_length] at hroom
  by_cases h₁ : c.val.toNat < 0x80
  · rw [utf8_one h₁] at h ⊢
    obtain ⟨rfl, rfl⟩ := List.cons.inj h
    have hb := toNat_byte (v := c.val.toNat) (by omega)
    rw [utf8Round_ascii (by omega), hb, utf16Encode_of_lt (by omega)]
    rfl
  by_cases h₂ : c.val.toNat < 0x800
  · rw [utf8_two (by omega) h₂] at h ⊢
    rw [if_pos (by omega)] at hroom
    obtain ⟨rfl, hrest⟩ := List.cons.inj h
    have hb := toNat_byte (v := c.val.toNat / 64 % 0x20 + 0xC0) (by omega)
    have hb₁ := toNat_byte (v := c.val.toNat % 0x40 + 0x80) (by omega)
    refine (utf8Round_two_iff (by omega) (by omega)).mpr
      ⟨_, _, hrest, by omega, ⟨by omega, by omega⟩, hroom, rfl, ?_⟩
    rw [← foldUcs2_eq, hb, hb₁]
    congr 1
    omega
  by_cases h₃ : c.val.toNat < 0x10000
  · rw [utf8_three (by omega) h₃] at h ⊢
    rw [if_pos h₃] at hroom
    obtain ⟨rfl, hrest⟩ := List.cons.inj h
    have hb := toNat_byte (v := c.val.toNat / 4096 % 0x10 + 0xE0) (by omega)
    have hb₁ := toNat_byte (v := c.val.toNat / 64 % 0x40 + 0x80) (by omega)
    have hb₂ := toNat_byte (v := c.val.toNat % 0x40 + 0x80) (by omega)
    refine (utf8Round_three_iff (by omega) (by omega)).mpr
      ⟨_, _, _, hrest, by omega, by omega, ⟨by omega, by omega⟩, ⟨by omega, by omega⟩, hroom, rfl, ?_⟩
    rw [← foldUcs2_eq, hb, hb₁, hb₂]
    congr 1
    omega
  · rw [utf8_four (by omega)] at h ⊢
    rw [if_neg h₃] at hroom
    obtain ⟨rfl, hrest⟩ := List.cons.inj h
    have hb := toNat_byte (v := c.val.toNat / 262144 % 0x08 + 0xF0) (by omega)
    have hb₁ := toNat_byte (v := c.val.toNat / 4096 % 0x40 + 0x80) (by omega)
    have hb₂ := toNat_byte (v := c.val.toNat / 64 % 0x40 + 0x80) (by omega)
    have hb₃ := toNat_byte (v := c.val.toNat % 0x40 + 0x80) (by omega)
    refine (utf8Round_four_iff (by omega) (by omega)).mpr
      ⟨_, _, _, _, hrest, by omega, by omega, by omega, ⟨by omega, by omega⟩, ⟨by omega, by omega⟩,
        ⟨by omega, by omega⟩, hroom, rfl, ?_⟩
    rw [← foldUcs2_eq, hb, hb₁, hb₂, hb₃]
    congr 1
    omega

theorem utf8Round_stop {b : UInt8} {input : List UInt8} {room : Nat} {code : Int}
    (h : utf8Round b input room = .stop code) : code ≠ 0 := by
  unfold utf8Round at h
  dsimp only at h
  split at h
  · cases h
  split at h
  · cases h
    decide
  split at h
  · cases h
    decide
  split at h
  · cases h
    decide
  split at h
  · cases h
    decide
  split at h
  · cases h
    decide
  split at h
  · cases h
  split at h <;> cases h
  decide

theorem utf8_exact : Exact String.utf8EncodeChar utf16Encode utf8Round where
  source_ne_nil := utf8EncodeChar_ne_nil
  target_ne_nil := utf16Encode_ne_nil
  stop_ne_zero := utf8Round_stop
  sound := utf8Round_sound
  complete := utf8Round_complete

/-! ### A round of `convert_ucs2_to_utf8` -/

section ucs2Round

variable {w : UInt16} {input : List UInt16} {room : Nat} {c : Char}

/-- The upper six bits of a word. -/
theorem word_high (w : UInt16) : w.toNat &&& 0xFC00 = w.toNat / 1024 * 1024 := by
  have hmask : (0xFC00 : Nat) = (2 ^ 6 - 1) <<< 10 := rfl
  have hdiv : w.toNat / 1024 * 1024 = (w.toNat >>> 10) <<< 10 := by
    rw [Nat.shiftLeft_eq, Nat.shiftRight_eq_div_pow]
  rw [hmask, hdiv]
  refine Nat.eq_of_testBit_eq fun i => ?_
  rw [Nat.testBit_and, Nat.testBit_shiftLeft, Nat.testBit_shiftLeft, Nat.testBit_two_pow_sub_one,
    Nat.testBit_shiftRight]
  by_cases hlow : i < 10
  · simp [Nat.not_le.mpr hlow]
  · rw [show 10 + (i - 10) = i by omega]
    by_cases hhigh : i < 16
    · simp [show i ≥ 10 by omega, show i - 10 < 6 by omega]
    · have hbit : w.toNat.testBit i = false := by
        refine Nat.testBit_lt_two_pow (Nat.lt_of_lt_of_le w.toNat_lt ?_)
        exact Nat.pow_le_pow_right (by decide) (by omega)
      simp [hbit]

theorem low_surrogate_iff (w : UInt16) : w.toNat &&& 0xFC00 = 0xDC00 ↔ LowSurrogate w := by
  rw [word_high, LowSurrogate]
  omega

theorem high_surrogate_iff (w : UInt16) : w.toNat &&& 0xFC00 = 0xD800 ↔ HighSurrogate w := by
  rw [word_high, HighSurrogate]
  omega

theorem needLoop_zero (need : Nat) : needLoop 0 need = need := by
  rw [needLoop, if_pos rfl]

theorem needLoop_pos {require : Nat} (h : require ≠ 0) (need : Nat) :
    needLoop require need = needLoop (require / 32) (need + 1) := by
  rw [needLoop, if_neg h, Nat.shiftRight_eq_div_pow]

/-- The number of bytes behind the lead byte. -/
theorem needLoop_eq (v : Nat) (hv : v < 0x110000) : needLoop (v >>> 11) 1 =
    if v < 0x800 then 1 else if v < 0x10000 then 2 else 3 := by
  rw [Nat.shiftRight_eq_div_pow]
  by_cases h₁ : v < 0x800
  · rw [if_pos h₁, show v / 2 ^ 11 = 0 by omega, needLoop_zero]
  · rw [if_neg h₁, needLoop_pos (by omega)]
    by_cases h₂ : v < 0x10000
    · rw [if_pos h₂, show v / 2 ^ 11 / 32 = 0 by omega, needLoop_zero]
    · rw [if_neg h₂, needLoop_pos (by omega), show v / 2 ^ 11 / 32 / 32 = 0 by omega, needLoop_zero]

theorem tail_put (v : Nat) : (0o200 ||| v &&& 0o77 : Nat) = v % 0x40 + 0x80 := by
  rw [byte_low, Nat.add_comm]
  exact or_eq_add 2 (i := 6) (Nat.mod_lt _ (by decide))

theorem lead_put_two {x : Nat} (h : x < 32) : (0xC0 ||| x : Nat) = x % 0x20 + 0xC0 := by
  rw [Nat.mod_eq_of_lt h, Nat.add_comm]
  exact or_eq_add 6 (i := 5) h

theorem lead_put_three {x : Nat} (h : x < 16) : (0xE0 ||| x : Nat) = x % 0x10 + 0xE0 := by
  rw [Nat.mod_eq_of_lt h, Nat.add_comm]
  exact or_eq_add 14 (i := 4) h

theorem lead_put_four {x : Nat} (h : x < 8) : (0xF0 ||| x : Nat) = x % 0x08 + 0xF0 := by
  rw [Nat.mod_eq_of_lt h, Nat.add_comm]
  exact or_eq_add 30 (i := 3) h

/-- The bytes put for a character are its code. -/
theorem putUtf8_eq (hc : 0x80 ≤ c.val.toNat) :
    putUtf8 (needLoop (c.val.toNat >>> 11) 1) 0o200 c.val.toNat [] = String.utf8EncodeChar c := by
  have hrange := scalar_range c
  rw [needLoop_eq _ (by omega)]
  by_cases h₁ : c.val.toNat < 0x800
  · have hlead : (0o200 ||| 0o200 >>> 1 : Nat) = 0xC0 := by decide
    rw [if_pos h₁, utf8_two hc h₁]
    simp only [putUtf8, tail_put, hlead]
    simp only [Nat.shiftRight_eq_div_pow]
    rw [lead_put_two (by omega)]
  by_cases h₂ : c.val.toNat < 0x10000
  · have hlead : (0o200 ||| 0o200 >>> 1 ||| (0o200 ||| 0o200 >>> 1) >>> 1 : Nat) = 0xE0 := by decide
    rw [if_neg h₁, if_pos h₂, utf8_three (by omega) h₂]
    simp only [putUtf8, tail_put, hlead]
    simp only [Nat.shiftRight_eq_div_pow, Nat.div_div_eq_div_mul]
    rw [lead_put_three (by omega)]
  · rw [if_neg h₁, if_neg h₂, utf8_four (by omega)]
    have hlead : (0o200 ||| 0o200 >>> 1 ||| (0o200 ||| 0o200 >>> 1) >>> 1 |||
        (0o200 ||| 0o200 >>> 1 ||| (0o200 ||| 0o200 >>> 1) >>> 1) >>> 1 : Nat) = 0xF0 := by decide
    simp only [putUtf8, tail_put, hlead]
    simp only [Nat.shiftRight_eq_div_pow, Nat.div_div_eq_div_mul]
    rw [lead_put_four (by omega)]

theorem utf8EncodeChar_length (hc : 0x80 ≤ c.val.toNat) :
    (String.utf8EncodeChar c).length = needLoop (c.val.toNat >>> 11) 1 + 1 := by
  have hrange := scalar_range c
  rw [needLoop_eq _ (by omega)]
  by_cases h₁ : c.val.toNat < 0x800
  · rw [if_pos h₁, utf8_two hc h₁]
    rfl
  by_cases h₂ : c.val.toNat < 0x10000
  · rw [if_neg h₁, if_pos h₂, utf8_three (by omega) h₂]
    rfl
  · rw [if_neg h₁, if_neg h₂, utf8_four (by omega)]
    rfl

/-- The decoded character is put when there is room for its code. -/
theorem emitUtf8_eq (hc : 0x80 ≤ c.val.toNat) (room : Nat) : emitUtf8 c.val.toNat room =
    if (String.utf8EncodeChar c).length ≤ room then
      .put (utf16Encode c).length (String.utf8EncodeChar c)
    else .full := by
  have hrange := scalar_range c
  have hwords : extraUnits (needLoop (c.val.toNat >>> 11) 1) + 1 = (utf16Encode c).length := by
    rw [needLoop_eq _ (by omega), utf16Encode_length]
    by_cases h₁ : c.val.toNat < 0x800
    · rw [if_pos h₁, if_pos (by omega)]
      rfl
    by_cases h₂ : c.val.toNat < 0x10000
    · rw [if_neg h₁, if_pos h₂, if_pos h₂]
      rfl
    · rw [if_neg h₁, if_neg h₂, if_neg h₂]
      rfl
  rw [emitUtf8, putUtf8_eq hc, hwords, utf8EncodeChar_length hc]
  by_cases hroom : needLoop (c.val.toNat >>> 11) 1 + 1 ≤ room
  · rw [if_neg (by omega), if_pos hroom]
  · rw [if_pos (by omega), if_neg hroom]

theorem ucs2Round_ascii (hw : w.toNat < 0x80) : ucs2Round w input room = .put 1 [.ofNat w.toNat] := by
  rw [ucs2Round.eq_def, if_pos hw]

theorem ucs2Round_single (hw : 0x80 ≤ w.toNat) (hhi : ¬ HighSurrogate w) (hlo : ¬ LowSurrogate w) :
    ucs2Round w input room = emitUtf8 w.toNat room := by
  rw [ucs2Round.eq_def, if_neg (by omega), if_neg (by rwa [low_surrogate_iff]), if_neg (by rwa [high_surrogate_iff])]

theorem ucs2Round_pair {next : UInt16} (hhi : HighSurrogate w) (hlo : LowSurrogate next) :
    ucs2Round w (next :: input) room =
      emitUtf8 (0x10000 + (w.toNat - 0xD800) * 0x400 + (next.toNat - 0xDC00)) room := by
  have hno : ¬ LowSurrogate w := by
    unfold LowSurrogate
    unfold HighSurrogate at hhi
    omega
  have hvalue : ((w.toNat &&& 0x03FF) <<< 10 ||| next.toNat &&& 0x03FF) + 0x10000 =
      0x10000 + (w.toNat - 0xD800) * 0x400 + (next.toNat - 0xDC00) := by
    have hmask (n : Nat) : n &&& 0x03FF = n % 0x400 := Nat.and_two_pow_sub_one_eq_mod n 10
    have hor := or_eq_add (w.toNat % 0x400) (i := 10) (x := next.toNat % 0x400) (Nat.mod_lt _ (by decide))
    rw [hmask, hmask, hor]
    unfold HighSurrogate at hhi
    unfold LowSurrogate at hlo
    omega
  unfold HighSurrogate at hhi
  rw [ucs2Round.eq_def, if_neg (by omega), if_neg (by rwa [low_surrogate_iff]),
    if_pos ((high_surrogate_iff w).mpr hhi)]
  dsimp only
  rw [if_neg (not_not.mpr ((low_surrogate_iff next).mpr hlo)), hvalue]

/-- A low surrogate in front, or a high one without a low one behind it. -/
theorem ucs2Round_unpaired (h : LowSurrogate w ∨ (HighSurrogate w ∧ ∀ next rest, input = next :: rest → ¬ LowSurrogate next)) :
    ∃ code, code ≠ 0 ∧ ucs2Round w input room = .stop code := by
  rcases h with hlo | ⟨hhi, hnext⟩
  · have hge : ¬ w.toNat < 0x80 := by
      unfold LowSurrogate at hlo
      omega
    exact ⟨-1, by decide, by rw [ucs2Round.eq_def, if_neg hge, if_pos ((low_surrogate_iff w).mpr hlo)]⟩
  · have hge : ¬ w.toNat < 0x80 ∧ ¬ LowSurrogate w := by
      unfold LowSurrogate
      unfold HighSurrogate at hhi
      omega
    cases input with
    | nil =>
      refine ⟨-2, by decide, ?_⟩
      rw [ucs2Round.eq_def, if_neg hge.1, if_neg (by rw [low_surrogate_iff]; exact hge.2),
        if_pos ((high_surrogate_iff w).mpr hhi)]
    | cons next rest =>
      refine ⟨-1, by decide, ?_⟩
      rw [ucs2Round.eq_def, if_neg hge.1, if_neg (by rw [low_surrogate_iff]; exact hge.2),
        if_pos ((high_surrogate_iff w).mpr hhi)]
      dsimp only
      rw [if_pos (by rw [ne_eq, low_surrogate_iff]; exact hnext next rest rfl)]

/-- What is in front: a character, or an unpaired surrogate. -/
theorem word_cases (w : UInt16) (input : List UInt16) :
    (∃ (c : Char) (rest : List UInt16), w :: input = utf16Encode c ++ rest) ∨
    (LowSurrogate w ∨ (HighSurrogate w ∧ ∀ next rest, input = next :: rest → ¬ LowSurrogate next)) := by
  by_cases hlo : LowSurrogate w
  · exact .inr (.inl hlo)
  by_cases hhi : HighSurrogate w
  · by_cases hnext : ∃ next rest, input = next :: rest ∧ LowSurrogate next
    · obtain ⟨next, rest, rfl, hnext⟩ := hnext
      obtain ⟨c, hc, -⟩ := exists_pair hhi hnext
      exact .inl ⟨c, rest, by rw [hc]; rfl⟩
    · exact .inr (.inr ⟨hhi, fun next rest heq hlow => hnext ⟨next, rest, heq, hlow⟩⟩)
  · obtain ⟨c, hc, -⟩ := exists_single hhi hlo
    exact .inl ⟨c, input, by rw [hc]; rfl⟩

/-- A round with a character in front. -/
theorem ucs2Round_char {rest : List UInt16} (h : w :: input = utf16Encode c ++ rest) (hroom : 0 < room) :
    ucs2Round w input room =
      if (String.utf8EncodeChar c).length ≤ room then
        .put (utf16Encode c).length (String.utf8EncodeChar c)
      else .full := by
  have hrange := scalar_range c
  by_cases hlt : c.val.toNat < 0x10000
  · rw [utf16Encode_of_lt hlt] at h ⊢
    obtain ⟨rfl, rfl⟩ := List.cons.inj h
    have hw := toNat_word (v := c.val.toNat) (by omega)
    by_cases hascii : c.val.toNat < 0x80
    · have hone : [UInt8.ofNat c.val.toNat].length ≤ room := hroom
      rw [ucs2Round_ascii (by omega), hw, utf8_one hascii, if_pos hone]
      rfl
    · rw [ucs2Round_single (by omega) (by unfold HighSurrogate; omega) (by unfold LowSurrogate; omega), hw,
        emitUtf8_eq (by omega), utf16Encode_of_lt hlt]
  · rw [utf16Encode_of_ge (by omega)] at h
    obtain ⟨rfl, hrest⟩ := List.cons.inj h
    have hhi := toNat_word (v := 0xD800 + (c.val.toNat - 0x10000) / 0x400) (by omega)
    have hlo := toNat_word (v := 0xDC00 + (c.val.toNat - 0x10000) % 0x400) (by omega)
    have hvalue : 0x10000 + (0xD800 + (c.val.toNat - 0x10000) / 0x400 - 0xD800) * 0x400 +
        (0xDC00 + (c.val.toNat - 0x10000) % 0x400 - 0xDC00) = c.val.toNat := by
      omega
    rw [show input = _ :: rest from hrest, ucs2Round_pair (by unfold HighSurrogate; omega)
      (by unfold LowSurrogate; omega), hhi, hlo, hvalue, emitUtf8_eq (by omega)]

theorem emitUtf8_ne_stop (v : Nat) {code : Int} : emitUtf8 v room ≠ .stop code := by
  unfold emitUtf8
  dsimp only
  split <;> exact nofun

theorem ucs2Round_stop {code : Int} (h : ucs2Round w input room = .stop code) : code ≠ 0 := by
  unfold ucs2Round at h
  dsimp only at h
  split at h
  · cases h
  split at h
  · cases h
    decide
  split at h
  · split at h
    · cases h
      decide
    split at h
    · cases h
      decide
    · exact absurd h (emitUtf8_ne_stop _)
  · exact absurd h (emitUtf8_ne_stop _)

end ucs2Round

theorem ucs2_exact : Exact utf16Encode String.utf8EncodeChar ucs2Round where
  source_ne_nil := utf16Encode_ne_nil
  target_ne_nil := utf8EncodeChar_ne_nil
  stop_ne_zero := ucs2Round_stop
  sound := by
    intro w input room eaten out hroom h
    rcases word_cases w input with ⟨c, rest, hc⟩ | hunpaired
    · rw [ucs2Round_char hc hroom] at h
      split at h
      · rename_i hfit
        cases h
        exact ⟨c, by rw [hc, List.take_left], rfl, rfl, hfit⟩
      · cases h
    · obtain ⟨code, -, hstop⟩ : ∃ code, code ≠ 0 ∧ ucs2Round w input room = .stop code :=
        ucs2Round_unpaired hunpaired
      rw [hstop] at h
      cases h
  complete := by
    intro w input room c rest hc hroom
    have hpos := List.length_pos_iff.mpr (utf8EncodeChar_ne_nil c)
    rw [ucs2Round_char hc (by omega), if_pos hroom]

/-! ### What is accepted, and the way back -/

/-- Room for a code that has at most `k` units for each unit of the other. -/
theorem flatMap_length_le {χ α β : Type*} {source : χ → List α} {target : χ → List β} {k : Nat}
    (h : ∀ c, (target c).length ≤ k * (source c).length) (cs : List χ) :
    (cs.flatMap target).length ≤ k * (cs.flatMap source).length := by
  induction cs with
  | nil => exact Nat.zero_le _
  | cons c cs ih =>
    have hc := h c
    rw [List.flatMap_cons, List.flatMap_cons, List.length_append, List.length_append, Nat.mul_add]
    omega

theorem utf16_length_le (c : Char) : (utf16Encode c).length ≤ 1 * (String.utf8EncodeChar c).length := by
  have hrange := scalar_range c
  by_cases hascii : c.val.toNat < 0x80
  · rw [utf16Encode_length, if_pos (by omega), utf8_one hascii]
    exact Nat.le_refl _
  · rw [utf16Encode_length, utf8EncodeChar_length (by omega), needLoop_eq _ (by omega)]
    split <;> split <;> omega

theorem utf8_length_le (c : Char) : (String.utf8EncodeChar c).length ≤ 3 * (utf16Encode c).length := by
  have hrange := scalar_range c
  by_cases hascii : c.val.toNat < 0x80
  · rw [utf16Encode_length, if_pos (by omega), utf8_one hascii, List.length_singleton]
    omega
  · rw [utf16Encode_length, utf8EncodeChar_length (by omega), needLoop_eq _ (by omega)]
    split <;> split <;> omega

theorem utf8_done_iff {bytes : List UInt8} {room : Nat} {out : List UInt16} :
    (convertUtf8ToUcs2 bytes room).Done out ↔ ∃ cs : List Char,
      bytes = cs.flatMap String.utf8EncodeChar ∧ out = cs.flatMap utf16Encode ∧ out.length ≤ room :=
  utf8_exact.done_iff

theorem ucs2_done_iff {words : List UInt16} {room : Nat} {out : List UInt8} :
    (convertUcs2ToUtf8 words room).Done out ↔ ∃ cs : List Char,
      words = cs.flatMap utf16Encode ∧ out = cs.flatMap String.utf8EncodeChar ∧ out.length ≤ room :=
  ucs2_exact.done_iff

/-- A conversion is done just for the well-formed texts whose code has room, with that code put. A word for
each byte is room enough, and three bytes for each word; and each conversion undoes the other. -/
theorem conversion_exact :
    (∀ (bytes : List UInt8) (room : Nat) (out : List UInt16), (convertUtf8ToUcs2 bytes room).Done out ↔
      ∃ cs : List Char, bytes = cs.flatMap String.utf8EncodeChar ∧ out = cs.flatMap utf16Encode ∧
        out.length ≤ room) ∧
    (∀ (bytes : List UInt8) (room : Nat), bytes.length ≤ room →
      ((∃ out, (convertUtf8ToUcs2 bytes room).Done out) ↔
        ∃ cs : List Char, bytes = cs.flatMap String.utf8EncodeChar)) ∧
    (∀ (words : List UInt16) (room : Nat) (out : List UInt8), (convertUcs2ToUtf8 words room).Done out ↔
      ∃ cs : List Char, words = cs.flatMap utf16Encode ∧ out = cs.flatMap String.utf8EncodeChar ∧
        out.length ≤ room) ∧
    (∀ (words : List UInt16) (room : Nat), 3 * words.length ≤ room →
      ((∃ out, (convertUcs2ToUtf8 words room).Done out) ↔ Paired words)) ∧
    (∀ (bytes : List UInt8) (room room' : Nat) (out : List UInt16), (convertUtf8ToUcs2 bytes room).Done out →
      bytes.length ≤ room' → (convertUcs2ToUtf8 out room').Done bytes) ∧
    (∀ (words : List UInt16) (room room' : Nat) (out : List UInt8), (convertUcs2ToUtf8 words room).Done out →
      words.length ≤ room' → (convertUtf8ToUcs2 out room').Done words) := by
  refine ⟨fun _ _ _ => utf8_done_iff, ?_, fun _ _ _ => ucs2_done_iff, ?_, ?_, ?_⟩
  · intro bytes room hroom
    constructor
    · rintro ⟨out, h⟩
      obtain ⟨cs, hbytes, -, -⟩ := utf8_done_iff.mp h
      exact ⟨cs, hbytes⟩
    · rintro ⟨cs, rfl⟩
      have hlen := flatMap_length_le utf16_length_le cs
      exact ⟨_, utf8_done_iff.mpr ⟨cs, rfl, rfl, by omega⟩⟩
  · intro words room hroom
    rw [paired_iff]
    constructor
    · rintro ⟨out, h⟩
      obtain ⟨cs, hwords, -, -⟩ := ucs2_done_iff.mp h
      exact ⟨cs, hwords⟩
    · rintro ⟨cs, rfl⟩
      have hlen := flatMap_length_le utf8_length_le cs
      exact ⟨_, ucs2_done_iff.mpr ⟨cs, rfl, rfl, by omega⟩⟩
  · intro bytes room room' out h hroom
    obtain ⟨cs, rfl, rfl, -⟩ := utf8_done_iff.mp h
    exact ucs2_done_iff.mpr ⟨cs, rfl, rfl, hroom⟩
  · intro words room room' out h hroom
    obtain ⟨cs, rfl, rfl, -⟩ := ucs2_done_iff.mp h
    exact utf8_done_iff.mpr ⟨cs, rfl, rfl, hroom⟩

end Funra
