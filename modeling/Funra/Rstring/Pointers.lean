import Mathlib.Data.List.TakeWhile
import Funra.Lib.Heap
import Funra.Rstring.Search

/-!
# Strings in blocks

What the functions that work on copies are given and return: `rstr_empty_const`, which is never freed, or the first byte
of a block. A function that only reads a string is given it as an object of its own.
-/

namespace Funra

open Mem CInt Except Words

/-- The string at `off`, whose places have differences of 64 bits. -/
def cstrAt (mem : Obj) (off : Nat) : Except Fault CStr :=
  if h : 0 ∈ mem.drop off ∧ ((mem.drop off).takeWhile (· ≠ 0)).length + 1 < 9223372036854775808 then
    .ok {
      chars := (mem.drop off).takeWhile (· ≠ 0)
      noNul := fun hmem => by simpa using List.mem_takeWhile_imp hmem
      fits := h.2 }
  else .error .outOfBounds

inductive CharPtr
  | empty
  | block (a : Nat)
  deriving DecidableEq

namespace CharPtr

def read (h : Heap) : CharPtr → Except Fault Obj
  | empty => .ok rstrEmpty
  | block a => Heap.read h a

def str (h : Heap) (p : CharPtr) : Except Fault CStr := do cstrAt (← p.read h) 0

/-- A string constant cannot be changed. -/
def modify (h : Heap) (p : CharPtr) (f : Obj → Except Fault Obj) : Except Fault Heap :=
  match p with
  | empty => do
    if (← f rstrEmpty) = rstrEmpty then return h
    else .error .outOfBounds
  | block a => Heap.modify h a f

/-- `rstr_free`. -/
def free (h : Heap) : CharPtr → Except Fault Heap
  | empty => .ok h
  | block a => Heap.free h a

def alloc (h : Heap) (o : Obj) : CharPtr × Heap := (block (Heap.alloc h o).1, (Heap.alloc h o).2)

/-- `rstr_cpy`. -/
def cpy (M : Malloc) (h : Heap) (data : Option CharPtr) (len : Nat) : Except Fault (CharPtr × Heap) :=
  match data with
  | none => .ok (empty, h)
  | some empty => .ok (empty, h)
  | some (block a) => do return alloc h (← rstrCpy M (← Heap.read h a) len)

end CharPtr

variable {M : Malloc} {h : Heap} {p : CharPtr} {mem chars r : Obj} {c : UInt8} {src : CStr}

theorem cstrAt_eq {off : Nat} (hstr : strAt mem off = .ok chars) (hsize : chars.length + 1 < 9223372036854775808) :
    (cstrAt mem off).Succeeds fun s => s.chars = chars := by
  obtain ⟨hin, -, -⟩ := strAt_eq hstr
  rw [strAt, if_pos hin] at hstr
  have hchars := Except.ok.inj hstr
  rw [cstrAt, dif_pos ⟨hin, hchars ▸ hsize⟩]
  exact Succeeds.ok hchars

theorem cstrAt_obj (s : CStr) : cstrAt s.obj 0 = .ok s := by
  obtain ⟨t, hrun, hchars⟩ := cstrAt_eq (strAt_obj (s := s) (Nat.zero_le _)) s.fits
  rw [hrun]
  obtain ⟨chars, hnul, hfits⟩ := s
  obtain ⟨chars', hnul', hfits'⟩ := t
  obtain rfl : chars' = chars := hchars
  rfl

/-- A copy of the whole string. -/
theorem rstrCpy_eq (M : Malloc) (hstr : strAt mem 0 = .ok chars) (hlen : chars.length < 4294967295) :
    rstrCpy M mem 0 = .ok (chars ++ [0]) := by
  have hblock : (rstrNewUint M chars.length).length = chars.length + 1 := by
    rw [rstrNewUint, M.length_block, uint32_of_range (by omega) (by omega)]
    omega
  have hload : Mem.load mem 0 chars.length = .ok chars := load_prefix (strAt_eq hstr).2.1
  have hdata : rstrLen mem 0 = .ok chars.length := by
    rw [rstrLen, hstr]
    rfl
  unfold rstrCpy
  rw [hdata]
  simp only [bind, ok_bind]
  rw [uint32_of_range (by omega) (by omega), Int.toNat_natCast, if_neg (by omega), hload, ok_bind]
  generalize rstrNewUint M chars.length = block at hblock ⊢
  obtain ⟨x, hx⟩ := List.length_eq_one_iff.mp (show (block.drop chars.length).length = 1 by rw [List.length_drop]; omega)
  have hstore := @store_behind [] block chars (by omega)
  rw [hx] at hstore
  rw [show store block 0 chars = .ok (chars ++ [x]) from hstore, ok_bind]
  exact store_char chars [] x 0

/-- `p` points to this string. -/
def Points (h : Heap) (p : CharPtr) (chars : Obj) : Prop :=
  ∃ mem, p.read h = .ok mem ∧ strAt mem 0 = .ok chars ∧ chars.length + 1 < 9223372036854775808

theorem Points.str (hp : Points h p chars) : (p.str h).Succeeds fun s => s.chars = chars := by
  obtain ⟨mem, hread, hstr, hsize⟩ := hp
  simp only [CharPtr.str, bind, hread, ok_bind]
  exact cstrAt_eq hstr hsize

theorem Points.of_prefix {h' : Heap} (hp : Points h p chars) (hpre : h <+: h') : Points h' p chars := by
  obtain ⟨mem, hread, hstr⟩ := hp
  refine ⟨mem, ?_, hstr⟩
  cases p with
  | empty => exact hread
  | block a => exact Heap.read_of_prefix hread hpre

theorem points_behind (hstr : strAt mem 0 = .ok chars) (hsize : chars.length + 1 < 9223372036854775808) (h t : Heap) :
    Points (h ++ some mem :: t) (.block h.length) chars := ⟨mem, Heap.read_behind h mem t, hstr, hsize⟩

/-- The copy of a string that is not empty is a new block. -/
theorem Points.cpy (hp : Points h p chars) (hne : chars ≠ []) (hlen : chars.length < 4294967295) (M : Malloc) :
    CharPtr.cpy M h (some p) 0 = .ok (.block h.length, h ++ [some (chars ++ [0])]) := by
  obtain ⟨mem, hread, hstr, -⟩ := hp
  cases p with
  | empty =>
    obtain rfl := Except.ok.inj hread
    exact absurd (Except.ok.inj hstr).symm hne
  | block a =>
    change Heap.read h a = _ at hread
    simp only [CharPtr.cpy, bind, hread, ok_bind, rstrCpy_eq M hstr hlen]
    rfl

/-! ### The last place of a character -/

theorem lastChar_none (h : c ∉ src.chars) : lastChar src c = .ok (-1) := by
  unfold lastChar strrchr
  rw [strAt_obj (Nat.zero_le _), List.drop_zero]
  simp only [Except.map, occurrences_singleton_nil h]
  rfl

theorem lastChar_some {u v : Obj} (hsplit : src.chars = u ++ c :: v) (h : c ∉ v) : lastChar src c = .ok (int32 u.length) := by
  unfold lastChar strrchr
  rw [strAt_obj (Nat.zero_le _), List.drop_zero, hsplit]
  simp only [Except.map, occurrences_singleton_last h]
  rfl

theorem rstrLastIndex_char {key : CStr} (hkey : key.chars = [c]) (fuel : Nat) (src : CStr) :
    rstrLastIndex fuel src key = lastChar src c := by
  have hbyte : byteAt key.obj 0 = .ok c := by
    rw [show byteAt key.obj 0 = _ from CStr.byteAt_lt (i := 0) (by rw [hkey]; exact Nat.zero_lt_one)]
    simp [hkey]
  rw [rstrLastIndex_eq, hkey, List.length_singleton, show int32 (1 : Nat) = 1 by decide, lastIndexLen, if_pos rfl, hbyte]
  rfl

end Funra
