import Mathlib.Data.List.Basic

/-!
# Loops that transcode

A loop takes one character after the other off a list of units of type `α` and puts its code in units of
type `β`, into a bounded room. `Exact` is what a round of it owes; a loop whose rounds are exact returns ok
with everything consumed just on the texts whose codes have room (`Exact.done_iff`).

The codes here are those of Unicode: UTF-8 as Lean has it (`String.utf8EncodeChar`), and UTF-16 (`utf16Encode`),
whose texts are the lists of words with paired surrogates (`paired_iff`).
-/

namespace Transcode

variable {χ α β : Type*}

/-- One round: an error, no room, or `eaten` units consumed and `out` put. -/
inductive Round (β : Type*)
  | stop (code : Int)
  | full
  | put (eaten : Nat) (out : List β)
  deriving DecidableEq

/-- The code of a loop, the units not consumed, the room not used, and what was put. -/
structure Result (β : Type*) where
  code : Int
  left : Nat
  room : Nat
  out : List β
  deriving DecidableEq

def loop (round : α → List α → Nat → Round β) : List α → Nat → Result β
  | [], room => ⟨0, 0, room, []⟩
  | _ :: rest, 0 => ⟨0, rest.length + 1, 0, []⟩
  | x :: rest, room + 1 =>
    match round x rest (room + 1) with
    | .stop code => ⟨code, rest.length + 1, room + 1, []⟩
    | .full => ⟨0, rest.length + 1, room + 1, []⟩
    | .put eaten out =>
      let r := loop round (rest.drop (eaten - 1)) (room + 1 - out.length)
      { r with out := out ++ r.out }
termination_by input => input.length
decreasing_by
  simp only [List.length_drop, List.length_cons]
  omega

/-- Ok, with everything consumed and `out` put. -/
def Result.Done (r : Result β) (out : List β) : Prop := r.code = 0 ∧ r.left = 0 ∧ r.out = out

/-- A round goes from the code `source` to the code `target`. -/
structure Exact (source : χ → List α) (target : χ → List β) (round : α → List α → Nat → Round β) : Prop where
  source_ne_nil : ∀ c, source c ≠ []
  target_ne_nil : ∀ c, target c ≠ []
  stop_ne_zero : ∀ {x rest room code}, round x rest room = .stop code → code ≠ 0
  sound : ∀ {x rest room eaten out}, 0 < room → round x rest room = .put eaten out →
    ∃ c, (x :: rest).take eaten = source c ∧ eaten = (source c).length ∧ out = target c ∧ out.length ≤ room
  complete : ∀ {x rest room c tail}, x :: rest = source c ++ tail → (target c).length ≤ room →
    round x rest room = .put (source c).length (target c)

section loop

variable {source : χ → List α} {target : χ → List β} {round : α → List α → Nat → Round β} {input : List α}
  {room : Nat} {out : List β}

/-- A character at the front, with room for its code. -/
theorem Exact.loop_append (h : Exact source target round) (c : χ) (tail : List α)
    (hroom : (target c).length ≤ room) :
    loop round (source c ++ tail) room =
      { loop round tail (room - (target c).length) with
        out := target c ++ (loop round tail (room - (target c).length)).out } := by
  obtain ⟨x, code, hcode⟩ := List.exists_cons_of_ne_nil (h.source_ne_nil c)
  have hpos := List.length_pos_iff.mpr (h.target_ne_nil c)
  obtain ⟨room, rfl⟩ : ∃ r, room = r + 1 := ⟨room - 1, by omega⟩
  have hput : round x (code ++ tail) (room + 1) = .put (source c).length (target c) :=
    h.complete (by rw [hcode, List.cons_append]) hroom
  have hdrop : (code ++ tail).drop ((source c).length - 1) = tail := by
    rw [hcode, List.length_cons, Nat.add_sub_cancel, List.drop_left]
  rw [hcode, List.cons_append, loop, hput]
  dsimp only
  rw [hdrop]

theorem Exact.done_of_codes (h : Exact source target round) {cs : List χ}
    (hroom : (cs.flatMap target).length ≤ room) :
    (loop round (cs.flatMap source) room).Done (cs.flatMap target) := by
  induction cs generalizing room with
  | nil =>
    rw [List.flatMap_nil, Result.Done, loop]
    exact ⟨rfl, rfl, rfl⟩
  | cons c cs ih =>
    rw [List.flatMap_cons, List.length_append] at hroom
    have hrest : (cs.flatMap target).length ≤ room - (target c).length := by omega
    obtain ⟨hcode, hleft, hout⟩ := ih hrest
    rw [List.flatMap_cons, List.flatMap_cons, Result.Done, h.loop_append c _ (by omega)]
    exact ⟨hcode, hleft, by rw [hout]⟩

/-- Induction over the rounds, each of which eats at least one unit. -/
theorem Exact.codes_of_done (h : Exact source target round) (hdone : (loop round input room).Done out) :
    ∃ cs : List χ, input = cs.flatMap source ∧ out = cs.flatMap target ∧ out.length ≤ room := by
  obtain ⟨n, hn⟩ : ∃ n, input.length ≤ n := ⟨_, Nat.le_refl _⟩
  induction n generalizing input room out with
  | zero =>
    obtain rfl : input = [] := List.eq_nil_of_length_eq_zero (by omega)
    rw [Result.Done, loop] at hdone
    obtain ⟨-, -, rfl⟩ := hdone
    exact ⟨[], rfl, rfl, Nat.zero_le _⟩
  | succ n ih =>
    cases input with
    | nil => exact ih hdone (Nat.zero_le _)
    | cons x rest =>
      cases room with
      | zero =>
        rw [Result.Done, loop] at hdone
        exact absurd hdone.2.1 (Nat.succ_ne_zero _)
      | succ room =>
        rw [Result.Done, loop] at hdone
        cases hround : round x rest (room + 1) with
        | stop code =>
          rw [hround] at hdone
          exact absurd hdone.1 (h.stop_ne_zero hround)
        | full =>
          rw [hround] at hdone
          exact absurd hdone.2.1 (Nat.succ_ne_zero _)
        | put eaten piece =>
          rw [hround] at hdone
          dsimp only at hdone
          obtain ⟨c, htake, heaten, rfl, hfit⟩ := h.sound (Nat.succ_pos _) hround
          have hpos := List.length_pos_iff.mpr (h.source_ne_nil c)
          obtain ⟨hcode, hleft, rfl⟩ := hdone
          obtain ⟨cs, hrest, hout, hlen⟩ := ih ⟨hcode, hleft, rfl⟩ (by
            rw [List.length_drop]
            rw [List.length_cons] at hn
            omega)
          refine ⟨c :: cs, ?_, congrArg (target c ++ ·) hout, ?_⟩
          · rw [List.flatMap_cons, ← hrest, ← htake]
            obtain ⟨k, rfl⟩ : ∃ k, eaten = k + 1 := ⟨eaten - 1, by omega⟩
            rw [Nat.add_sub_cancel, List.take_succ_cons, List.cons_append, List.take_append_drop]
          · rw [List.length_append]
            omega

/-- The loop accepts just the texts of the source code for whose target code there is room. -/
theorem Exact.done_iff (h : Exact source target round) : (loop round input room).Done out ↔
    ∃ cs : List χ, input = cs.flatMap source ∧ out = cs.flatMap target ∧ out.length ≤ room := by
  constructor
  · exact h.codes_of_done
  · rintro ⟨cs, rfl, rfl, hroom⟩
    exact h.done_of_codes hroom

end loop

/-! ### UTF-16 -/

/-- The scalar value of `c` as one word, or as a pair of surrogates. -/
def utf16Encode (c : Char) : List UInt16 :=
  let v := c.val.toNat
  if v < 0x10000 then [.ofNat v]
  else [.ofNat (0xD800 + (v - 0x10000) / 0x400), .ofNat (0xDC00 + (v - 0x10000) % 0x400)]

def HighSurrogate (w : UInt16) : Prop := 0xD800 ≤ w.toNat ∧ w.toNat < 0xDC00

def LowSurrogate (w : UInt16) : Prop := 0xDC00 ≤ w.toNat ∧ w.toNat < 0xE000

/-- Every high surrogate is followed by a low one, and every low one follows a high one. -/
inductive Paired : List UInt16 → Prop
  | nil : Paired []
  | single {w : UInt16} {ws : List UInt16} : ¬ HighSurrogate w → ¬ LowSurrogate w → Paired ws → Paired (w :: ws)
  | pair {hi lo : UInt16} {ws : List UInt16} : HighSurrogate hi → LowSurrogate lo → Paired ws →
      Paired (hi :: lo :: ws)

theorem scalar_range (c : Char) :
    c.val.toNat < 0xD800 ∨ (0xDFFF < c.val.toNat ∧ c.val.toNat < 0x110000) := c.valid

theorem exists_scalar {v : Nat} (h : v < 0xD800 ∨ (0xDFFF < v ∧ v < 0x110000)) : ∃ c : Char, c.val.toNat = v :=
  ⟨Char.ofNatAux v h, rfl⟩

theorem utf16Encode_of_lt {c : Char} (h : c.val.toNat < 0x10000) : utf16Encode c = [.ofNat c.val.toNat] := if_pos h

theorem utf16Encode_of_ge {c : Char} (h : 0x10000 ≤ c.val.toNat) : utf16Encode c =
    [.ofNat (0xD800 + (c.val.toNat - 0x10000) / 0x400), .ofNat (0xDC00 + (c.val.toNat - 0x10000) % 0x400)] :=
  if_neg (Nat.not_lt.mpr h)

theorem utf16Encode_ne_nil (c : Char) : utf16Encode c ≠ [] := by
  unfold utf16Encode
  dsimp only
  split <;> exact List.cons_ne_nil _ _

theorem toNat_word {v : Nat} (h : v < 65536) : (UInt16.ofNat v).toNat = v := UInt16.toNat_ofNat_of_lt' h

/-- The word of a character outside the surrogates. -/
theorem exists_single {w : UInt16} (hhi : ¬ HighSurrogate w) (hlo : ¬ LowSurrogate w) :
    ∃ c : Char, utf16Encode c = [w] ∧ c.val.toNat = w.toNat := by
  unfold HighSurrogate at hhi
  unfold LowSurrogate at hlo
  have hlt := w.toNat_lt
  obtain ⟨c, hc⟩ := exists_scalar (v := w.toNat) (by omega)
  refine ⟨c, ?_, hc⟩
  rw [utf16Encode_of_lt (by omega), hc, UInt16.ofNat_toNat]

/-- The two words of a character beyond the first plane. -/
theorem exists_pair {hi lo : UInt16} (hhi : HighSurrogate hi) (hlo : LowSurrogate lo) :
    ∃ c : Char, utf16Encode c = [hi, lo] ∧
      c.val.toNat = 0x10000 + (hi.toNat - 0xD800) * 0x400 + (lo.toNat - 0xDC00) := by
  obtain ⟨h1, h2⟩ := hhi
  obtain ⟨h3, h4⟩ := hlo
  obtain ⟨c, hc⟩ := exists_scalar (v := 0x10000 + (hi.toNat - 0xD800) * 0x400 + (lo.toNat - 0xDC00)) (by omega)
  have hfirst : UInt16.ofNat (0xD800 + (c.val.toNat - 0x10000) / 0x400) = hi := by
    rw [← UInt16.toNat_inj, toNat_word (by omega)]
    omega
  have hsecond : UInt16.ofNat (0xDC00 + (c.val.toNat - 0x10000) % 0x400) = lo := by
    rw [← UInt16.toNat_inj, toNat_word (by omega)]
    omega
  exact ⟨c, by rw [utf16Encode_of_ge (by omega), hfirst, hsecond], hc⟩

theorem Paired.encode_append (c : Char) {ws : List UInt16} (h : Paired ws) : Paired (utf16Encode c ++ ws) := by
  have hrange := scalar_range c
  by_cases hlt : c.val.toNat < 0x10000
  · rw [utf16Encode_of_lt hlt]
    have hw := toNat_word (v := c.val.toNat) (by omega)
    refine .single ?_ ?_ h
    · unfold HighSurrogate
      omega
    · unfold LowSurrogate
      omega
  · rw [utf16Encode_of_ge (by omega)]
    have hhi := toNat_word (v := 0xD800 + (c.val.toNat - 0x10000) / 0x400) (by omega)
    have hlo := toNat_word (v := 0xDC00 + (c.val.toNat - 0x10000) % 0x400) (by omega)
    refine .pair ?_ ?_ h
    · unfold HighSurrogate
      omega
    · unfold LowSurrogate
      omega

/-- The texts of UTF-16. -/
theorem paired_iff (ws : List UInt16) : Paired ws ↔ ∃ cs : List Char, ws = cs.flatMap utf16Encode := by
  constructor
  · intro h
    induction h with
    | nil => exact ⟨[], rfl⟩
    | single hhi hlo _ ih =>
      obtain ⟨cs, rfl⟩ := ih
      obtain ⟨c, hc, -⟩ := exists_single hhi hlo
      exact ⟨c :: cs, by rw [List.flatMap_cons, hc]; rfl⟩
    | pair hhi hlo _ ih =>
      obtain ⟨cs, rfl⟩ := ih
      obtain ⟨c, hc, -⟩ := exists_pair hhi hlo
      exact ⟨c :: cs, by rw [List.flatMap_cons, hc]; rfl⟩
  · rintro ⟨cs, rfl⟩
    induction cs with
    | nil => exact .nil
    | cons c cs ih => exact ih.encode_append c

/-! ### ASCII -/

/-- Each ASCII character has one unit, which is its number, and no other unit is below 128. -/
structure KeepsAscii (code : Char → List α) (value : α → Nat) : Prop where
  ascii : ∀ {c : Char}, c.val.toNat < 128 → ∃ u, code c = [u] ∧ value u = c.val.toNat
  above : ∀ {c : Char} {u : α}, 128 ≤ c.val.toNat → u ∈ code c → 128 ≤ value u
  ne_nil : ∀ c, code c ≠ []

theorem utf16_keepsAscii : KeepsAscii utf16Encode UInt16.toNat where
  ascii hc := ⟨_, utf16Encode_of_lt (by omega), toNat_word (by omega)⟩
  above := by
    intro c w hc hw
    have hrange := scalar_range c
    by_cases hlt : c.val.toNat < 0x10000
    · rw [utf16Encode_of_lt hlt, List.mem_singleton] at hw
      rw [hw, toNat_word (by omega)]
      exact hc
    · rw [utf16Encode_of_ge (by omega), List.mem_pair] at hw
      rcases hw with rfl | rfl
      · rw [toNat_word (by omega)]
        omega
      · rw [toNat_word (by omega)]
        omega
  ne_nil := utf16Encode_ne_nil

section ascii

variable {code : Char → List α} {value : α → Nat} {cs : List Char} {u : α} {us : List α}

theorem KeepsAscii.of_mem (h : KeepsAscii code value) {c : Char} (hmem : u ∈ code c) (hu : value u < 128) :
    code c = [u] ∧ c.val.toNat = value u := by
  have hlt : c.val.toNat < 128 := by
    by_contra hge
    have habove := h.above (Nat.not_lt.mp hge) hmem
    omega
  obtain ⟨v, hcode, hv⟩ := h.ascii hlt
  obtain rfl : u = v := List.mem_singleton.mp (hcode ▸ hmem)
  exact ⟨hcode, hv.symm⟩

/-- A unit below 128 in front is a character. -/
theorem KeepsAscii.head (h : KeepsAscii code value) (heq : cs.flatMap code = u :: us) (hu : value u < 128) :
    ∃ c cs', cs = c :: cs' ∧ code c = [u] ∧ c.val.toNat = value u ∧ cs'.flatMap code = us := by
  cases cs with
  | nil => cases heq
  | cons c cs =>
    obtain ⟨v, vs, hcode⟩ := List.exists_cons_of_ne_nil (h.ne_nil c)
    rw [List.flatMap_cons, hcode] at heq
    obtain ⟨rfl, hrest⟩ := List.cons.inj heq
    obtain ⟨hone, hnum⟩ := h.of_mem (hcode ▸ List.mem_cons_self) hu
    obtain rfl : vs = [] := (List.cons.inj (hcode.symm.trans hone)).2
    exact ⟨c, cs, rfl, hone, hnum, hrest⟩

/-- An ASCII text in front of the code is in front of the text. -/
theorem KeepsAscii.of_isPrefix (h : KeepsAscii code value) {a : List Char} (ha : ∀ c ∈ a, c.val.toNat < 128)
    (hfront : a.flatMap code <+: cs.flatMap code) : a <+: cs := by
  induction a generalizing cs with
  | nil => exact List.nil_prefix
  | cons c a ih =>
    have hc := ha c List.mem_cons_self
    obtain ⟨u, hcode, hu⟩ := h.ascii hc
    obtain ⟨tail, htail⟩ := hfront
    rw [List.flatMap_cons, hcode, List.append_assoc, List.singleton_append] at htail
    obtain ⟨c', cs', rfl, -, hc', hrest⟩ := h.head htail.symm (hu ▸ hc)
    obtain rfl : c = c' := Char.ext (UInt32.toNat_inj.mp (hu.symm.trans hc'.symm))
    exact List.cons_prefix_cons.mpr ⟨rfl, ih (fun d hd => ha d (List.mem_cons_of_mem c hd)) ⟨tail, hrest.symm⟩⟩

/-- One ASCII character put for another, before or after the coding. -/
theorem KeepsAscii.map_replace [DecidableEq α] (h : KeepsAscii code value) {c d : Char} {v : α} (hc : code c = [u])
    (hd : code d = [v]) (hlt : value u < 128) (cs : List Char) :
    (cs.flatMap code).map (fun x => if x = u then v else x) = (cs.map fun e => if e = c then d else e).flatMap code := by
  rw [List.map_flatMap, List.flatMap_map]
  congr 1
  funext e
  by_cases he : e = c
  · rw [if_pos he, he, hc, hd, List.map_singleton, if_pos rfl]
  · rw [if_neg he]
    refine (List.map_congr_left fun x hx => if_neg ?_).trans (List.map_id (code e))
    rintro rfl
    obtain ⟨-, hnum⟩ := h.of_mem hx hlt
    obtain ⟨-, hnum'⟩ := h.of_mem (hc ▸ List.mem_singleton_self x) hlt
    exact he (Char.ext (UInt32.toNat_inj.mp (hnum.trans hnum'.symm)))

end ascii

end Transcode
