import Mathlib.Data.List.DropRight
import Funra.Rstring.Basic

/-!
# Trimming

`rstr_trim_end` writes terminators over the blanks and tabs at the end. The loop of `rstr_trim_begin` goes on while the
pointer into the string is not NULL, and leaves the string behind its terminator. `rstr_trim` changes nothing. All
three work in place and return `rcode_ok`.
-/

namespace Funra

open Mem Except

/-- `rstr_blank` and `rstr_tab`. -/
def isBlank (c : UInt8) : Bool := c = 32 ∨ c = 9

/-- A NULL source is left alone. -/
def unlessNull (f : Obj → Except Fault Obj) : Option Obj → Except Fault (Option Obj)
  | none => .ok none
  | some src => (f src).map some

def rstrTrim : Option Obj → Except Fault (Option Obj) := unlessNull .ok

/-- `p` and `q` are offsets into the string. -/
structure TrimBegin where
  mem : Obj
  p : Nat
  q : Nat
  checking : Bool

def TrimBegin.skips (s : TrimBegin) : Except Fault Bool :=
  if s.checking then (byteAt s.mem s.q).map isBlank else .ok false

/-- `q` is never NULL: no round leaves. -/
def trimBeginRound (s : TrimBegin) : Except Fault (TrimBegin ⊕ Obj) := do
  if ← s.skips then return .inl { s with q := s.q + 1 }
  else
    let mem ← store s.mem s.p [← byteAt s.mem (s.q + 1)]
    return .inl ⟨mem, s.p + 1, s.q + 1, false⟩

def rstrTrimBegin (fuel : Nat) : Option Obj → Except Fault (Option Obj) :=
  unlessNull fun src => loop .outOfFuel trimBeginRound fuel ⟨src, 0, 0, true⟩

/-- The loop with `p` this far behind `src`. -/
def trimEndFrom : Nat → Obj → Except Fault Obj
  | 0, mem => .ok mem
  | p + 1, mem => do
    if isBlank (← byteAt mem p) then trimEndFrom p (← store mem p [0])
    else return mem

def rstrTrimEnd : Option Obj → Except Fault (Option Obj) :=
  unlessNull fun src => do trimEndFrom (← rstrLen src 0) src

/-! ### The end -/

variable {s : CStr} {chars rest : Obj}

theorem trimEndFrom_spec (chars rest : Obj) : ∃ rest', trimEndFrom chars.length (chars ++ 0 :: rest) =
    .ok (chars.rdropWhile isBlank ++ 0 :: rest') := by
  induction chars using List.reverseRecOn generalizing rest with
  | nil => exact ⟨rest, rfl⟩
  | append_singleton chars c ih =>
    have hmem : chars ++ [c] ++ 0 :: rest = chars ++ c :: 0 :: rest := List.append_assoc _ _ _
    have hbyte : byteAt (chars ++ c :: 0 :: rest) chars.length = .ok c := byteAt_eq (by simp)
    rw [List.length_append, List.length_singleton, hmem, trimEndFrom, hbyte]
    simp only [bind, ok_bind]
    by_cases hblank : isBlank c = true
    · rw [if_pos hblank, store_char, ok_bind, List.rdropWhile_concat_pos _ _ _ hblank]
      exact ih (0 :: rest)
    · rw [if_neg hblank, List.rdropWhile_concat_neg _ _ _ hblank]
      exact ⟨rest, congrArg Except.ok hmem.symm⟩

theorem zero_not_mem_rdropWhile (h : 0 ∉ chars) (p : UInt8 → Bool) : 0 ∉ chars.rdropWhile p := fun hmem =>
  h ((List.rdropWhile_prefix p chars).subset hmem)

theorem rstrTrimEnd_eq (h : 0 ∉ chars) (rest : Obj) : ∃ rest', rstrTrimEnd (some (chars ++ 0 :: rest)) =
    .ok (some (chars.rdropWhile isBlank ++ 0 :: rest')) := by
  obtain ⟨rest', htrim⟩ := trimEndFrom_spec chars rest
  refine ⟨rest', ?_⟩
  have hlen : rstrLen (chars ++ 0 :: rest) 0 = .ok chars.length := by
    rw [rstrLen, strAt_of_append rfl h]
    rfl
  rw [rstrTrimEnd, unlessNull, hlen]
  simp only [bind, ok_bind]
  rw [htrim]
  rfl

/-! ### The three together -/

/-- The object holds this string. -/
def Holds (out : Option Obj) (chars : Obj) : Prop := ∃ mem, out = some mem ∧ strAt mem 0 = .ok chars

theorem holds_append (h : 0 ∉ chars) (rest : Obj) : Holds (some (chars ++ 0 :: rest)) chars :=
  ⟨_, rfl, strAt_of_append rfl h⟩

/-- A call leaves the characters that `g` keeps, and another call changes nothing. -/
def Trims (f : Nat → Option Obj → Except Fault (Option Obj)) (g : Obj → Obj) (s : CStr) : Prop :=
  Halts (fun fuel => f fuel (some s.obj)) fun out => Holds out (g s.chars) ∧
    Halts (fun fuel => f fuel out) fun out' => Holds out' (g s.chars)

def trimmed (chars : Obj) : Obj := (chars.dropWhile isBlank).rdropWhile isBlank

structure TrimLaw (s : CStr) : Prop where
  front : Trims rstrTrimBegin (List.dropWhile isBlank) s
  back : Trims (fun _ => rstrTrimEnd) (List.rdropWhile isBlank) s
  both : Trims (fun _ => rstrTrim) trimmed s
  frontBack : Halts (fun fuel => (rstrTrimBegin fuel (some s.obj)).bind rstrTrimEnd) fun out => Holds out (trimmed s.chars)
  backFront : Halts (fun fuel => (rstrTrimEnd (some s.obj)).bind (rstrTrimBegin fuel)) fun out => Holds out (trimmed s.chars)

theorem not_trims_front (s : CStr) (g : Obj → Obj) : ¬ Trims rstrTrimBegin g s := by
  intro h
  obtain ⟨out, ⟨fuel, hrun⟩, -⟩ := h
  have hrun := hrun fuel (Nat.le_refl fuel)
  obtain ⟨mem, hloop, -⟩ := of_map_ok hrun
  refine Returns.loop (I := fun _ => True) (Q := fun _ => False) (fun s _ => ?_) trivial fuel mem hloop
  unfold trimBeginRound
  refine Returns.bind_of_forall fun blank => ?_
  split
  · exact Returns.ok trivial
  · exact Returns.bind_of_forall fun c => Returns.bind_of_forall fun mem => Returns.ok trivial

theorem trims_back (s : CStr) : Trims (fun _ => rstrTrimEnd) (List.rdropWhile isBlank) s := by
  have hnul := zero_not_mem_rdropWhile s.noNul isBlank
  obtain ⟨rest, hrun⟩ := rstrTrimEnd_eq s.noNul []
  obtain ⟨rest', hrun'⟩ := rstrTrimEnd_eq hnul rest
  rw [List.rdropWhile_idempotent] at hrun'
  refine Succeeds.halts ⟨_, hrun, holds_append hnul rest, ?_⟩
  exact Succeeds.halts ⟨_, hrun', holds_append hnul rest'⟩

theorem trims_both_iff (s : CStr) : Trims (fun _ => rstrTrim) trimmed s ↔ trimmed s.chars = s.chars := by
  have hsame : strAt s.obj 0 = .ok s.chars := strAt_obj (Nat.zero_le _)
  constructor
  · rintro ⟨out, ⟨n, hrun⟩, ⟨mem, rfl, htext⟩, -⟩
    have hmem : s.obj = mem := Option.some.inj (Except.ok.inj (hrun n (Nat.le_refl n)))
    rw [← hmem, hsame] at htext
    exact (Except.ok.inj htext).symm
  · intro h
    unfold Trims
    rw [h]
    have hdone : (rstrTrim (some s.obj)).Succeeds fun out => Holds out s.chars := ⟨_, rfl, s.obj, rfl, hsame⟩
    refine Succeeds.halts ⟨_, rfl, ⟨s.obj, rfl, hsame⟩, ?_⟩
    exact hdone.halts

/-- The law fails for every string, by `rstr_trim_begin`. `rstr_trim_end` does its part, `rstr_trim` only where there
is nothing to do. -/
theorem not_trimLaw (s : CStr) : ¬ TrimLaw s ∧ ¬ Trims rstrTrimBegin (List.dropWhile isBlank) s ∧
    Trims (fun _ => rstrTrimEnd) (List.rdropWhile isBlank) s ∧
    (Trims (fun _ => rstrTrim) trimmed s ↔ trimmed s.chars = s.chars) :=
  ⟨fun h => not_trims_front s _ h.front, not_trims_front s _, trims_back s, trims_both_iff s⟩

/-- "a". -/
theorem trim_begin_leaves_string : ¬ ∀ s : CStr, TrimLaw s := fun h =>
  not_trims_front ⟨[97], by decide, by decide⟩ _ (h ⟨[97], by decide, by decide⟩).front

end Funra
