import Funra.Lib.CInt
import Funra.Lib.Loop
import Funra.Lib.Mem
import Funra.Lib.Words

/-!
# C strings

A string lies in an object of bytes, from an offset to the first zero byte behind it. A function of the C library
that is given a string fails when there is no such byte: it would read past the object. A `CStr` is the string
that fills its object, terminator included. `rstr_new` leaves the bytes of the new block as they are found; allocation
succeeds.
-/

namespace Funra

open Mem CInt Except Words

/-- `fits`: a pointer difference inside the object is a 64-bit integer. -/
structure CStr where
  chars : Obj
  noNul : 0 ∉ chars
  fits : chars.length + 1 < 9223372036854775808
  deriving DecidableEq

namespace CStr

/-- The object, with the terminator. -/
def obj (s : CStr) : Obj := s.chars ++ [0]

@[simp] theorem obj_length (s : CStr) : s.obj.length = s.chars.length + 1 := by
  simp [obj]

theorem obj_drop (s : CStr) {n : Nat} (h : n ≤ s.chars.length) : s.obj.drop n = s.chars.drop n ++ [0] :=
  List.drop_append_of_le_length h

end CStr

/-- `mem[i]`. -/
def byteAt (mem : Obj) (i : Int) : Except Fault UInt8 :=
  match (if 0 ≤ i then mem[i.toNat]? else none) with
  | some b => .ok b
  | none => .error .outOfBounds

/-- The characters of the string at `off`. -/
def strAt (mem : Obj) (off : Nat) : Except Fault Obj :=
  if 0 ∈ mem.drop off then .ok ((mem.drop off).takeWhile (· ≠ 0)) else .error .outOfBounds

def rstrLen (mem : Obj) (off : Nat) : Except Fault Nat := (strAt mem off).map List.length

/-- `strstr`: where in the object the first occurrence begins. -/
def strstr (mem : Obj) (off : Nat) (key : CStr) : Except Fault (Option Nat) :=
  (strAt mem off).map fun chars => (search key.chars chars).map (off + ·)

/-- The bytes of a new block, by its size. -/
structure Malloc where
  block : Nat → Obj
  length_block : ∀ n, (block n).length = n

def Malloc.zeros : Malloc := ⟨fun n => List.replicate n 0, fun _ => List.length_replicate⟩

/-- `rstr_new` of a `size_t`. -/
def rstrNew (M : Malloc) (size : Nat) : Obj := M.block (sizeT (size + 1))

/-- `rstr_new` of an `int` or an `unsigned int`: the sum with `1u` has 32 bits. -/
def rstrNewUint (M : Malloc) (size : Int) : Obj := M.block (uint32 (size + 1)).toNat

def rstrCpy (M : Malloc) (data : Obj) (len : Nat) : Except Fault Obj := do
  let dataLen := (uint32 (← rstrLen data 0)).toNat
  let dataLen := if 0 < len ∧ len < dataLen then len else dataLen
  let dataCopy ← store (rstrNewUint M dataLen) 0 (← Mem.load data 0 dataLen)
  store dataCopy dataLen [0]

/-- `start - src` has 64 bits. -/
def rstrIndex (mem : Obj) (src : Nat) (key : CStr) : Except Fault Int := do
  match ← strstr mem src key with
  | some start => return int32 (start - src)
  | none => return -1

/-- `rstr_empty`. -/
def rstrEmpty : Obj := [0]

/-! ### Reading -/

theorem byteAt_eq {mem : Obj} {i : Nat} {b : UInt8} (h : mem[i]? = some b) : byteAt mem i = .ok b := by
  simp [byteAt, h]

theorem byteAt_neg {mem : Obj} {i : Int} (h : i < 0) : byteAt mem i = .error .outOfBounds := by
  rw [byteAt, if_neg (by omega)]

theorem byteAt_beyond {mem : Obj} {i : Nat} (h : mem.length ≤ i) : byteAt mem i = .error .outOfBounds := by
  simp [byteAt, h]

namespace CStr

variable {s : CStr} {i off : Nat}

theorem obj_get (h : i < s.chars.length) : s.obj[i]? = s.chars[i]? := List.getElem?_append_left h

theorem obj_get_end (s : CStr) : s.obj[s.chars.length]? = some 0 := by
  simp [obj]

theorem byteAt_lt (h : i < s.chars.length) : byteAt s.obj i = .ok s.chars[i] :=
  byteAt_eq ((obj_get h).trans (List.getElem?_eq_getElem h))

end CStr

theorem cuts_noNul (src : CStr) (m n : Nat) (P : List Nat) : ∀ t ∈ cuts m src.chars n P, 0 ∉ t := by
  induction P generalizing n with
  | nil =>
    intro t ht
    rw [List.mem_singleton.mp ht]
    exact fun hmem => src.noNul (List.mem_of_mem_drop hmem)
  | cons p P ih =>
    intro t ht
    rcases List.mem_cons.mp ht with rfl | ht
    · exact fun hmem => src.noNul (List.mem_of_mem_drop (List.mem_of_mem_take hmem))
    · exact ih (p + m) t ht

/-- The string that begins with `chars`, up to the terminator behind. -/
theorem strAt_of_append {mem chars r : Obj} {off : Nat} (h : mem.drop off = chars ++ 0 :: r)
    (hnul : 0 ∉ chars) : strAt mem off = .ok chars := by
  have htake : (chars ++ 0 :: r).takeWhile (fun b => decide (b ≠ 0)) = chars := by
    rw [List.takeWhile_append_of_pos, List.takeWhile_cons_of_neg (by simp), List.append_nil]
    intro b hb
    simp only [decide_eq_true_iff]
    rintro rfl
    exact hnul hb
  rw [strAt, h, if_pos (by simp), htake]

theorem strAt_beyond {mem : Obj} {off : Nat} (h : mem.length ≤ off) : strAt mem off = .error .outOfBounds := by
  rw [strAt, List.drop_eq_nil_of_le h, if_neg List.not_mem_nil]

theorem strAt_obj {s : CStr} {off : Nat} (h : off ≤ s.chars.length) : strAt s.obj off = .ok (s.chars.drop off) :=
  strAt_of_append (s.obj_drop h) fun hmem => s.noNul (List.mem_of_mem_drop hmem)

theorem strstr_obj {s key : CStr} {off : Nat} (h : off ≤ s.chars.length) :
    strstr s.obj off key = .ok ((search key.chars (s.chars.drop off)).map (off + ·)) := by
  rw [strstr, strAt_obj h]
  rfl

theorem rstrLen_obj {s : CStr} {off : Nat} (h : off ≤ s.chars.length) :
    rstrLen s.obj off = .ok (s.chars.length - off) := by
  rw [rstrLen, strAt_obj h]
  exact congrArg Except.ok List.length_drop

/-! ### Writing -/

theorem store_beyond {mem bs : Obj} {off : Nat} (h : mem.length < off + bs.length) :
    store mem off bs = .error .outOfBounds := if_neg (by omega)

/-- What is written behind `front`, over the first bytes there. -/
theorem store_behind {front back b : Obj} (h : b.length ≤ back.length) :
    store (front ++ back) front.length b = .ok (front ++ b ++ back.drop b.length) := by
  rw [store_ok (by rw [List.length_append]; omega), overwrite, List.take_left, List.drop_append,
    List.drop_eq_nil_of_le (Nat.le_add_right _ _), Nat.add_sub_cancel_left, List.nil_append]

theorem store_char (front back : Obj) (c d : UInt8) : store (front ++ c :: back) front.length [d] = .ok (front ++ d :: back) := by
  rw [store_behind, List.append_assoc]
  · rfl
  · exact Nat.succ_le_succ (Nat.zero_le _)

theorem store_returns (mem : Obj) (off : Int) (bs : Obj) :
    (store mem off bs).Returns fun mem' => mem'.length = mem.length := by
  rintro mem' hstore
  rw [store] at hstore
  split at hstore
  next h =>
    rw [← Except.ok.inj hstore, overwrite_length _ _ _ (by omega)]
  next => cases hstore

theorem strAt_eq {mem chars : Obj} {off : Nat} (h : strAt mem off = .ok chars) :
    0 ∈ mem.drop off ∧ chars <+: mem.drop off ∧ 0 ∉ chars := by
  rw [strAt] at h
  split at h
  next hmem =>
    rw [← Except.ok.inj h]
    refine ⟨hmem, List.takeWhile_prefix _, fun hzero => ?_⟩
    have hall := List.all_eq_true.mp List.all_takeWhile 0 hzero
    simp at hall
  next => cases h

/-- What lies behind the string, from its terminator on. -/
theorem strAt_split {mem chars : Obj} {off : Nat} (h : strAt mem off = .ok chars) : ∃ rest, mem.drop off = chars ++ 0 :: rest := by
  obtain ⟨front, rest, hsplit, hnul⟩ := List.eq_append_cons_of_mem (strAt_eq h).1
  have heq : front = chars := Except.ok.inj ((strAt_of_append hsplit hnul).symm.trans h)
  exact ⟨rest, heq ▸ hsplit⟩

/-- The terminator is inside the object. -/
theorem strAt_lt {mem chars : Obj} {off : Nat} (h : strAt mem off = .ok chars) : off + chars.length < mem.length := by
  obtain ⟨hmem, hpre, hnul⟩ := strAt_eq h
  have hle := hpre.length_le
  have hne : chars.length ≠ (mem.drop off).length := fun heq => hnul (hpre.eq_of_length heq ▸ hmem)
  rw [List.length_drop] at hle hne
  omega

/-- A string ends before each zero. -/
theorem strAt_le_of_store {mem out chars : Obj} {off : Nat} (h : store mem off [0] = .ok out)
    (hchars : strAt out 0 = .ok chars) : chars.length ≤ off := by
  obtain ⟨-, hpre, hnul⟩ := strAt_eq hchars
  rw [store] at h
  split at h
  next hfit =>
    rw [List.length_singleton] at hfit
    by_contra hlt
    have hget : out[off]? = some 0 := by
      rw [← Except.ok.inj h, overwrite, Int.toNat_natCast, List.append_assoc, List.getElem?_append_right (by simp),
        List.length_take, Nat.min_eq_left (by omega), Nat.sub_self]
      rfl
    have hlt' : off < chars.length := not_le.mp hlt
    rw [List.prefix_iff_getElem?] at hpre
    have hsame := hpre off hlt'
    rw [List.drop_zero, hget, Option.some_inj] at hsame
    exact hnul (hsame ▸ List.getElem_mem hlt')
  next => cases h

/-- What is written behind the first `off` bytes of a text is behind them. -/
theorem store_prefix {mem t b : Obj} {off : Nat} (h : t <+: mem) (hoff : off ≤ t.length)
    (hfit : off + b.length ≤ mem.length) :
    (store mem off b).Succeeds fun mem' => t.take off ++ b <+: mem' ∧ mem'.length = mem.length := by
  refine ⟨_, store_ok hfit, ?_, overwrite_length _ _ _ hfit⟩
  rw [overwrite, show mem.take off = t.take off by rw [List.prefix_iff_eq_take.mp h, List.take_take,
    Nat.min_eq_left hoff]]
  exact List.prefix_append _ _

theorem store_append {mem t b : Obj} (h : t <+: mem) (hfit : t.length + b.length ≤ mem.length) :
    (store mem t.length b).Succeeds fun mem' => t ++ b <+: mem' ∧ mem'.length = mem.length := by
  have hstore := store_prefix h (Nat.le_refl _) hfit
  rwa [List.take_length] at hstore

theorem strAt_of_prefix {mem text : Obj} (h : text ++ [0] <+: mem) (hnul : 0 ∉ text) : strAt mem 0 = .ok text := by
  obtain ⟨rest, rfl⟩ := h
  exact strAt_of_append (r := rest) (by simp) hnul

theorem load_text {chars rest : Obj} : Mem.load (chars ++ rest) 0 chars.length = .ok chars := by
  have h : Mem.load (chars ++ rest) (0 : Nat) chars.length = _ := load_ok (by simp)
  simpa [window] using h

theorem load_obj {s : CStr} {off n : Nat} (h : off + n ≤ s.chars.length) :
    Mem.load s.obj off n = .ok ((s.chars.drop off).take n) := by
  rw [load_ok (by rw [CStr.obj_length]; omega), window, s.obj_drop (by omega),
    List.take_append_of_le_length (by rw [List.length_drop]; omega)]

end Funra
